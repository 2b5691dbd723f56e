import ScriptMachine.Proofs.Source.Declarations
import ScriptMachine.Proofs.Syntax.Language

set_option autoImplicit false
set_option synthInstance.maxSize 20000

/- Units. What compiles is read as a program, and its code is that of the program. -/
namespace ScriptMachine.Compiler

open Prototype (Setting)
open Source (Reading Locals Scope Context Productions Form Laying Expression Statement Routine
  codesBlock announced)

section Depth

variable (known : Text → Bool)

/-- The productions of some depth, for the reading. -/
def productionsAt (depth : Nat) : Productions :=
  ⟨known, depth, Source.operandAt known depth, Source.statementAt known depth,
    Source.declarationAt known depth⟩

/-- Productions of any depth mirror what is read. -/
theorem mirrorsAt (depth : Nat) :
    Mirrors ⟨depth, operandAt depth, statementAt depth, declarationAt depth⟩
      (productionsAt known depth) := by
  induction depth with
  | zero =>
    refine ⟨rfl, fun _ _ _ => ?_, fun _ _ _ => ?_, fun _ _ _ => ?_⟩
    all_goals
      simp only [operandAt, statementAt, declarationAt]
      exact does_throw
  | succ depth ih =>
    have operands : ∀ origin level, Keeps (Changes origin) (operandAt depth level) :=
      fun _ => (keeps_grammar depth).1
    have statements : ∀ origin, Keeps (Changes origin) (statementAt depth) :=
      fun _ => (keeps_grammar depth).2.1
    have declarations : ∀ origin, Keeps (Changes origin) (declarationAt depth) :=
      fun _ => (keeps_grammar depth).2.2
    have inner : ∀ {state : State}, Meets (productionsAt known (depth + 1)) state →
        Meets (productionsAt known depth) state := fun meets =>
          ⟨meets.orderly, meets.knows, meets.once, meets.worded⟩
    have behaves := behavesAt depth depth
    refine ⟨rfl, fun meets expecting low => ?_, fun meets resting expecting => ?_,
      fun meets resting inside => ?_⟩
    · simp only [operandAt, productionsAt, Source.operandAt]
      exact follows_parseOperand behaves (recognises_grammar depth) ih (inner meets) expecting low
    · simp only [statementAt, productionsAt, Source.statementAt]
      exact follows_parseStatement ih (inner meets) resting expecting
    · simp only [declarationAt, productionsAt, Source.declarationAt]
      exact (follows_parseDeclaration behaves ih (inner meets) resting inside).mono
        fun _ _ _ declared => ⟨declared.lays, declared.knows, declared.inner⟩

end Depth

section Units

variable {state : State}

theorem announced_concat (known : Text → Bool) (program : List Statement) (item : Statement) :
    announced known (program ++ [item]) = item.announces (announced known program) := by
  unfold announced
  rw [List.foldl_concat]

/-- A compilation whose code is that of the declarations read so far. -/
structure Renders (program : List Statement) (before after : State) : Prop where
  lays : Lays (codesBlock program) before after
  knows : after.knows = announced before.knows program

/-- The code of a unit is that of the program that is read. -/
theorem follows_unit (depth : Nat) (orderly : Orderly state) (resting : AtStatement state)
    (once : CapturesOnce state) (worded : state.cursor.Worded) :
    Follows (unit depth) (Source.readUnit state.knows depth) state fun _ program last =>
      ∃ middle, Renders program state middle ∧ Adds 0 middle last [⟨.nil, 0, 0⟩, ⟨.return, 0, 0⟩] := by
  have declarations : ∀ origin, Keeps (Changes origin) (declarationAt depth) :=
    fun _ => (keeps_grammar depth).2.2
  let inv : Unit → List Statement → State → Prop := fun _ program middle =>
    Renders program state middle
  have loop : Follows (iterate depth () fun _ => do
      if ← atEnd then return ((), false)
      declarationAt depth
      return ((), true)) (Source.readUnit state.knows depth) state fun _ program last =>
        Renders program state last := by
    refine follows_iterate inv (fun _ program middle sofar => ?_) depth () []
      ⟨orderly.builds.lays, rfl⟩
    have renders : Renders program state middle := sofar
    obtain ⟨lays, knows⟩ := renders
    refine follows_atEnd (follows_ite .rfl (fun _ => follows_pure ⟨rfl, lays, knows⟩) fun more => ?_)
    have inside : middle.pending ≠ [] := fun empty => more (List.isEmpty_iff.mpr empty)
    have meets : Meets (productionsAt (announced state.knows program) depth) middle :=
      ⟨lays.orderly, knows, capturesOnce_of_changes lays.changes once,
        (worded_of_changes lays.changes).mpr worded⟩
    refine follows_bind (((mirrorsAt _ depth).declaration meets (lays.resting resting) inside).mono ?_)
    rintro _ item last ⟨declared, known, -⟩
    refine follows_pure ⟨rfl, ?_⟩
    exact ⟨(lays.andThen declared).mono fun _ _ _ _ => codesBlock_concat, by
      rw [known, knows, announced_concat]⟩
  unfold unit
  refine follows_silent ((does_of_parses orderly.calm fun ready =>
    parses_settle ready False.elim).mono ?_)
  rintro _ _ rfl
  refine ⟨rfl, ?_⟩
  have ends : Does (iterate depth () fun _ => do
      if ← atEnd then return ((), false)
      declarationAt depth
      return ((), true)) _ _ := loop
  refine does_bind (ends.mono ?_)
  rintro _ middle ⟨program, ran, renders⟩
  have rests : Does emitReturnNil middle fun _ last => Remains middle last :=
    does_remains renders.lays.orderly.calm
  have emits : Does emitReturnNil middle fun _ last =>
      Adds 0 middle last [⟨.nil, 0, 0⟩, ⟨.return, 0, 0⟩] :=
    does_emitReturnNil renders.lays.orderly fun _ adds => adds
  refine (emits.and rests).mono ?_
  rintro _ last ⟨adds, remains⟩
  exact ⟨program, by rw [ran, remains.pending], middle, renders, adds⟩

end Units

section Ends

variable {heap after : Heap} {registry : Registry} {outside : List ObjectId} {tokens : List Token}
  {compiled : Compiled} {state : State}

/-- Where a unit stands, declarations leave nothing on the stack. -/
theorem declares_nothing {program : List Statement} {context : Context} {declared : Locals}
    {start : Nat} {code : List Instruction} (top : context.topLevel = true)
    (codes : codesBlock program context declared start code) : declared = [] := by
  have each : ∀ {item : Statement} {context : Context} {declared : Locals} {start : Nat}
      {code : List Instruction}, context.topLevel = true →
      item.Codes context declared start code → declared = [] := by
    intro item context declared start code top codes
    cases item with
    | var name value | fn name routine =>
      simp only [Statement.Codes, Laying.defines, top, if_true] at codes
      exact codes.1
    | _ => exact codes.1
  induction program generalizing context declared start code with
  | nil => exact codes.1
  | cons first rest ih =>
    obtain ⟨early, late, front, back, rfl, rfl, here, others⟩ := codes
    have inner : (context.declare early).topLevel = true := top
    rw [each top here, ih inner others]
    rfl

/-- A staged method is the only one of its name. -/
theorem Staged.Coherent.findMethod {pending : Option (StructId × Text)} {staged : StagedMethod}
    (coherent : state.staged.Coherent heap state.registry pending)
    (member : staged ∈ state.staged.methods) :
    state.findMethod staged.struct staged.name = some staged.method := by
  have own : ∀ methods : List StagedMethod, staged ∈ methods →
      methods.Pairwise (fun one other => one.struct = other.struct → one.name ≠ other.name) →
      methods.find? (fun other => other.struct == staged.struct && other.name == staged.name)
        = some staged := by
    intro methods member separate
    induction methods with
    | nil => cases member
    | cons first rest ih =>
      rw [List.pairwise_cons] at separate
      rcases List.mem_cons.mp member with rfl | behind
      · simp
      · have other : (first.struct == staged.struct && first.name == staged.name) = false := by
          have apart := separate.1 staged behind
          simpa using apart
        rw [List.find?_cons, other]
        exact ih behind separate.2
  have unknown : ((state.struct? staged.struct).bind fun type => type.findMethod staged.name) = none := by
    cases known : state.struct? staged.struct with
    | none => rfl
    | some type =>
      refine List.lookup_eq_none_iff.mpr fun entry inside => ?_
      have mine : staged ∈ state.staged.methodsOf staged.struct :=
        Staged.mem_methodsOf.mpr ⟨member, rfl⟩
      simpa using (coherent.fresh_methodsOf known mine inside).symm
  unfold State.findMethod
  rw [unknown, own _ member coherent.separate]
  rfl

/-- What a unit has declared is registered under its names. -/
theorem Completes.foretells {flags : List Bool} (completes : Completes registry tokens state after compiled)
    (structs : (registry.structs.toList.map StructType.name).Nodup)
    (traits : (registry.traits.map TraitType.name).Nodup) (worded : (Cursor.start tokens).Worded)
    (outermost : state.enclosing = []) (top : state.draft.atTopLevel = true)
    (captured : List.Forall₂ (fun flag (found : Variable) => found.captured = true → flag = true) flags
      state.draft.visible) :
    Foretells ⟨⟨after, compiled.registry, state.draft.body⟩,
      (state.draft.visible.map Variable.name).zip flags, [], true⟩ state := by
  have coherent := completes.tables structs traits worded
  obtain ⟨committed, isCommitted, commits⟩ := coherent.commits
  obtain rfl := Except.ok.inj (isCommitted.symm.trans completes.committed)
  have kept : ∀ id, Heap.Reaches state.heap.objects state.pool id →
      after.get? id = state.heap.get? id := by
    intro id reached
    rw [completes.heap]
    exact completes.orderly.returned_kept reached
  have length := captured.length_eq
  refine ⟨⟨fun id reached => ?_, List.prefix_rfl, List.prefix_rfl, List.prefix_rfl, completes.knows, ?_⟩, ?_, ?_,
    fun name id found => ?_, fun staged member type known => ?_, fun id reached => ?_, top.symm⟩
  · exact kept id (reached.mono fun other member => .root (mem_pool_of_references member))
  · rw [List.map_snd_zip (by simp [length])]
    exact captured
  · rw [List.map_fst_zip (by simp [length])]
  · rw [outermost]
    exact .nil
  · exact (commits.findStruct coherent name).trans found
  · have isMine := coherent.findMethod member
    have here := commits.struct? staged.struct
    rw [known] at here
    obtain ⟨seen, isSeen, -⟩ := Option.map_eq_some_iff.mp here.symm
    obtain ⟨result, isResult, -, -, -, methods⟩ := commits.seen coherent isSeen
    obtain rfl := Option.some.inj (known.symm.trans isResult)
    rw [methods, isMine]
  · exact kept id (reached.mono fun other member => .root (List.mem_append_right _ member))

theorem knows_begun {id : ObjectId} : (State.begun heap registry outside tokens id).knows
    = fun name => (registry.findStruct name).isSome :=
  funext fun name => Bool.eq_iff_iff.mpr (iff_of_eq (congrFun known_begun name))

theorem once_begun {id : ObjectId} : CapturesOnce (.begun heap registry outside tokens id) := by
  intro draft member
  rw [List.mem_singleton.mp member]
  exact .nil

/-- What compiles is read as a program, and the script that it leaves is the code of the program,
with the structs of the unit registered. -/
theorem compile_codes (tidy : heap.Tidy) (structs : (registry.structs.toList.map StructType.name).Nodup)
    (traits : (registry.traits.map TraitType.name).Nodup) (worded : (Cursor.start tokens).Worded)
    (ran : compile heap registry outside tokens = (after, .ok compiled)) :
    ∃ program others body,
      Source.readUnit (fun name => (registry.findStruct name).isSome) (depthFor tokens.length)
        (unitTokens tokens) = some (program, others) ∧
      after.get? compiled.script = some (.function body) ∧ body.captures = #[] ∧
      Source.CodesUnit program ⟨after, compiled.registry, body⟩ := by
  obtain ⟨start, id, state, isTidy, placeholder, isRun, finished⟩ := unit_of_compile tidy ran
  obtain ⟨quiet, completes⟩ := completes_of_run isTidy placeholder isRun finished
  obtain ⟨program, isRead, middle, renders, last⟩ := follows_unit (depthFor tokens.length)
    (orderly_begun isTidy placeholder) atStatement_begun once_begun worded () state isRun quiet
  rw [knows_begun, pending_begun] at isRead
  obtain ⟨-, -, added, code, adds, means⟩ := renders.lays
  have whole := adds.trans last
  have grows := whole.grows
  have top : state.draft.atTopLevel = true := grows.draft.atTopLevel
  obtain ⟨body, script, -⟩ := completes.script_sound
  have here : after.get? compiled.script = some (.function state.draft.body) := by
    rw [completes.script, completes.heap]
    exact completes.orderly.returned_here
  let flags := state.draft.visible.map fun _ => true
  have captured : List.Forall₂ (fun flag (found : Variable) => found.captured = true → flag = true)
      flags state.draft.visible := by
    rw [List.forall₂_map_left_iff]
    exact List.forall₂_same.mpr fun _ _ _ => rfl
  have foretells := completes.foretells structs traits worded
    (List.forall₂_nil_left_iff.mp grows.enclosing) top captured
  have codes := means _ (foretells.same last.grows)
  have nothing := declares_nothing (show Context.topLevel _ = true from rfl) codes
  rw [nothing] at codes
  -- only the script itself is left among the locals
  let locals := ((state.draft.visible.map Variable.name).zip flags).drop added
  have names : locals.map Prod.fst = [[]] := by
    have older := names_of_ages grows.draft.visible_older
    rw [Nat.zero_add] at older
    rw [List.map_drop, show List.map Prod.fst _ = _ from foretells.names, ← List.map_drop, older]
    rfl
  obtain ⟨⟨name, flag⟩, isOnly, rfl⟩ := List.map_eq_singleton_iff.mp names
  refine ⟨program, _, _, isRead, here, completes.captures, flag, code, ?_, ?_⟩
  · rw [← isOnly]
    exact codes
  · rw [last.code, adds.code]
    rfl

end Ends

end ScriptMachine.Compiler
