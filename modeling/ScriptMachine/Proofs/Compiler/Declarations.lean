import ScriptMachine.Proofs.Compiler.Statements

set_option autoImplicit false
set_option synthInstance.maxSize 20000

/- Declarations in a quiet compilation. Those of structs, traits and impls write no code; a method
is staged with a closure that keeps its prototype sound. -/
namespace ScriptMachine.Compiler

open Prototype (Setting Note Settles Sound Marked)

section Staging

variable {α : Type} {state first second third : State}

theorem Does.congr {action other : Compile α} {done : α → State → Prop}
    (same : action state = other state) (does : Does other state done) : Does action state done :=
  fun result last ran => does result last (same ▸ ran)

/-- A declaration is under way: the function has got no new code. -/
structure Declares (before after : State) : Prop where
  orderly : Orderly after
  grows : Grows 0 before after
  words : after.cursor.Worded → before.cursor.Worded
  code : after.draft.body.code.toList = before.draft.body.code.toList

theorem Adds.declares (adds : Adds 0 first second []) : Declares first second :=
  ⟨adds.orderly, adds.grows, adds.stages.words, by simpa using adds.code⟩

theorem Declares.trans (one : Declares first second) (two : Declares second third) :
    Declares first third :=
  ⟨two.orderly, one.grows.trans two.grows, fun worded => one.words (two.words worded),
    two.code.trans one.code⟩

/-- A declaration at the top level is done when the tables are in order again. -/
theorem Declares.adds (declares : Declares first second) (top : first.draft.atTopLevel = true)
    (tabled : first.Tabled → second.Tabled) : Adds 0 first second [] where
  orderly := declares.orderly
  grows := declares.grows
  stages :=
    { words := declares.words
      nested := fun nested => absurd (nested.symm.trans top) (by simp)
      tabled }
  code := by rw [declares.code, List.append_nil]

theorem Idle.findStruct (idle : Idle first second) (name : Text) :
    second.findStruct name = first.findStruct name := by
  unfold State.findStruct
  rw [idle.registry, idle.staged]

theorem Idle.findTrait (idle : Idle first second) (name : Text) :
    second.findTrait name = first.findTrait name := by
  unfold State.findTrait
  rw [idle.registry, idle.staged]

/-- A new struct is found behind those that are known. -/
theorem Orderly.stageStruct (orderly : Orderly state) {type : StructType}
    (bare : type.methods = []) :
    Declares state { state with
      staged := { state.staged with structs := state.staged.structs.push type } } := by
  have structs : ∀ id known, state.struct? id = some known → State.struct? { state with
      staged := { state.staged with structs := state.staged.structs.push type } } id
        = some known := by
    intro id known here
    rw [State.struct?_eq] at here ⊢
    change (state.registry.structs ++ state.staged.structs.push type)[id]? = some known
    rw [← Array.push_append, Array.getElem?_push_lt (Array.getElem?_eq_some_iff.mp here).1]
    exact (Array.getElem?_eq_getElem _).symm.trans here
  refine ⟨?_, ⟨.refl _, List.forall₂_same.mpr fun draft _ => .refl draft, fun _ _ => rfl, structs,
    List.prefix_refl _, rfl⟩, fun worded => worded, rfl⟩
  have before := orderly.each state.draft List.mem_cons_self
  refine orderly.update orderly.calm (fun worded => worded) rfl structs (fun known member => ?_) rfl
    rfl rfl rfl rfl (fun id refers => Or.inl (mem_pool_of_references refers)) before
  rcases Array.mem_push.mp member with old | rfl
  · exact orderly.bare known old
  · exact bare

/-- Traits and impls do not matter for the code. -/
theorem Orderly.stage (orderly : Orderly state) (staged : Staged)
    (structs : staged.structs = state.staged.structs)
    (methods : staged.methods = state.staged.methods) : Declares state { state with staged } := by
  have known : ∀ id type, state.struct? id = some type →
      State.struct? { state with staged } id = some type := by
    intro id type here
    unfold State.struct? at here ⊢
    rw [structs]
    exact here
  refine ⟨?_, ⟨.refl _, List.forall₂_same.mpr fun draft _ => .refl draft, fun _ _ => rfl, known,
    by rw [methods], rfl⟩, fun worded => worded, rfl⟩
  refine orderly.update orderly.calm (fun worded => worded) rfl known ?_ methods rfl rfl rfl rfl
    (fun id refers => Or.inl (mem_pool_of_references refers))
    (orderly.each state.draft List.mem_cons_self)
  intro type member
  change type ∈ staged.structs at member
  rw [structs] at member
  exact orderly.bare type member

variable {prototype : ObjectId} {body : Prototype} {method : StagedMethod} {count : Nat}

/-- From the closure of a method, its prototype is reached and what that reaches. -/
theorem reaches_closure {heap : Heap} {closure other : ObjectId}
    (here : heap.get? closure = some (.closure prototype (Array.replicate count none)))
    (reached : Heap.Reaches heap.objects [closure] other) :
    other = closure ∨ Heap.Reaches heap.objects [prototype] other := by
  refine reached.closed (fun root member => Or.inl (List.mem_singleton.mp member)) ?_
  intro id object live present next member
  rcases live with rfl | isReached
  · cases present.symm.trans here
    have only : next = prototype := by simpa [Object.references] using member
    exact Or.inr (only ▸ .root List.mem_cons_self)
  · exact Or.inr (isReached.next present member)

theorem Orderly.stageMethod (orderly : Orderly state)
    (here : state.heap.get? method.method.closure
      = some (.closure prototype (Array.replicate count none)))
    (finished : Finished state prototype body)
    (apart : ∀ other, Heap.Reaches state.heap.objects [prototype] other →
      (state.heap.get? other).isSome = true ∧ ∀ draft ∈ state.drafts, draft.id ≠ other) :
    Declares state { state with
      staged := { state.staged with methods := state.staged.methods ++ [method] } } := by
  let later : State := { state with
    staged := { state.staged with methods := state.staged.methods ++ [method] } }
  have grows : Grows 0 state later :=
    ⟨.refl _, List.forall₂_same.mpr fun draft _ => .refl draft, fun _ _ => rfl,
      fun _ _ known => known, List.prefix_append _ _, rfl⟩
  have fine : ∀ other, Heap.Reaches state.heap.objects [method.method.closure] other →
      (state.heap.get? other).isSome = true ∧ ∀ draft ∈ state.drafts, draft.id ≠ other := by
    intro other reached
    rcases reaches_closure here reached with rfl | inside
    · refine ⟨by rw [here]; rfl, fun draft member same => ?_⟩
      have placeholder := orderly.drafts draft member
      rw [same, here] at placeholder
      cases placeholder
    · exact apart other inside
  have reached : ∀ other, Heap.Reaches state.heap.objects later.pool other →
      Heap.Reaches state.heap.objects state.pool other ∨
        Heap.Reaches state.heap.objects [method.method.closure] other := by
    intro other isReached
    obtain ⟨root, member, fromRoot⟩ := isReached.single
    have split : root ∈ state.pool ∨ root = method.method.closure := by
      have whole : later.pool = state.pool ++ [method.method.closure] := by
        simp [State.pool, State.drafts, later]
      rw [whole, List.mem_append] at member
      exact member.imp_right List.mem_singleton.mp
    rcases split with old | rfl
    · refine Or.inl (fromRoot.mono fun id isRoot => ?_)
      rw [List.mem_singleton.mp isRoot]
      exact .root old
    · exact Or.inr fromRoot
  refine ⟨?_, grows, fun worded => worded, rfl⟩
  refine
    { calm := orderly.calm
      tidy := orderly.tidy
      drafts := orderly.drafts
      distinct := orderly.distinct
      present := fun other isReached => ?_
      apart := fun draft member isReached => ?_
      each := orderly.each
      captures := orderly.captures
      bare := orderly.bare
      methods := fun staged member => ?_ }
  · rcases reached other isReached with old | new
    · exact orderly.present other old
    · exact (fine other new).1
  · rcases reached _ isReached with old | new
    · exact orderly.apart draft member old
    · exact (fine _ new).2 draft member rfl
  · rcases List.mem_append.mp member with old | new
    · exact orderly.methods staged old
    · cases List.mem_singleton.mp new
      exact ⟨prototype, _, body, here, finished⟩

/-- An impl of a trait for a struct is being compiled, and these methods have been met. -/
structure Implementing (trait : TraitType) (struct : StructId) (provided : List Text)
    (state : State) : Prop where
  known : trait ∈ state.registry.traits ++ state.staged.traits
  coherent : state.cursor.Worded →
    state.staged.Coherent state.heap state.registry (some (struct, trait.name))
  provided : ∀ name ∈ provided, ∃ method ∈ state.staged.methods,
    method.struct = struct ∧ method.name = name ∧ method.method.trait = trait.name

theorem Implementing.grown {trait : TraitType} {struct : StructId} {provided : List Text}
    (implementing : Implementing trait struct provided first) (grows : Grows 0 first second)
    (staged : second.staged = first.staged)
    (words : second.cursor.Worded → first.cursor.Worded) :
    Implementing trait struct provided second where
  known := by
    rw [grows.registry, staged]
    exact implementing.known
  coherent worded := grows.coherent staged (implementing.coherent (words worded))
  provided := by
    rw [staged]
    exact implementing.provided

end Staging

section Methods

variable {grammar : Grammar} {state : State}

/-- At the top level there is nothing that a method could capture. -/
theorem Returns.captures_nothing {before : State} {prototype : ObjectId} {body : Prototype}
    (returns : Returns before state prototype body) (top : state.draft.atTopLevel = true)
    (resting : AtStatement state) (worded : state.cursor.Worded) : body.captures = #[] := by
  obtain ⟨inner, rfl, captures⟩ := returns.captures
  have orderly := returns.adds.orderly
  simp only [Draft.atTopLevel, Bool.and_eq_true, beq_iff_eq] at top
  have outermost : state.draft.body.captures = #[] := by
    have chain := orderly.captures
    unfold State.drafts at chain
    cases around : state.enclosing with
    | nil =>
      rw [around] at chain
      exact chain
    | cons outer rest =>
      rw [around] at chain
      exact absurd top.1 chain.1
  refine Array.eq_empty_iff_forall_not_mem.mpr fun capture member => ?_
  have captured := captures capture member
  split at captured
  · obtain ⟨found, here, _, named⟩ := captured
    have inside : found ∈ state.draft.locals := by
      rw [← resting.visible]
      exact List.mem_reverse.mp (List.mem_of_getElem? here)
    obtain ⟨depth, shallow, isDepth⟩ := resting.locals found inside
    rw [top.2, Nat.le_zero] at shallow
    subst shallow
    exact named worded ((orderly.each _ List.mem_cons_self).nameless top.1 found inside isDepth)
  · rw [outermost] at captured
    exact absurd captured (Nat.not_lt_zero _)

/-- A method that its trait asks for, and that the struct has not got yet, is staged with a closure of
its own. -/
theorem does_filesMethod {before : State} {prototype : ObjectId} {body : Prototype}
    {trait : TraitType} {struct : StructId} {arity : Nat} {done : Unit → State → Prop} (name : Text)
    (method : Token) (returns : Returns before state prototype body)
    (next : ∀ (signature : Signature) later, trait.findMethod method.text = some signature →
      signature.arity = arity → state.findMethod struct method.text = none → Adds 0 state later [] →
      later.drafts = state.drafts → later.staged = state.staged →
      later.heap.get? state.heap.nextId
        = some (.closure prototype (Array.replicate body.captures.size none)) →
      (∀ other, Heap.Reaches state.heap.objects [prototype] other →
        later.heap.get? other = state.heap.get? other) →
      done () { later with staged := { later.staged with
        methods := later.staged.methods ++
          [⟨struct, method.text, ⟨trait.name, state.heap.nextId⟩⟩] } }) :
    Does (Grammar.stageMethod trait struct name method prototype arity) state done := by
  have orderly := returns.adds.orderly
  have isFunction : state.heap.prototype? prototype = some body := by
    rw [Heap.prototype?, returns.finished.1]
  unfold Grammar.stageMethod
  split
  · exact does_errorAt orderly.calm
  next signature isSignature =>
  refine does_ite (fun _ => does_errorAt orderly.calm) fun sameArity => does_ran rfl ?_
  split
  · exact does_errorAt orderly.calm
  next unknown =>
  have allocates : allocating [prototype] (Heap.newClosure · prototype) state
      = allocating [prototype]
        (Heap.allocate · (.closure prototype (Array.replicate body.captures.size none))) state := by
    unfold allocating
    dsimp only
    rw [Heap.newClosure_eq _ isFunction]
  refine does_bind (Does.congr allocates (does_allocate orderly (by simp) ?_))
  intro later adds same around staged here kept
  refine does_modify (next signature later isSignature (by simpa using sameArity) unknown adds
    (by rw [State.drafts, same, around, State.drafts]) staged here fun other reached => ?_)
  exact kept other reached (returns.apart other reached).1

theorem does_stageMethod {before : State} {prototype : ObjectId} {body : Prototype}
    {trait : TraitType} {struct : StructId} (provided : List Text) (name : Text) (method : Token)
    (returns : Returns before state prototype body) (isMethod : body.isMethod = true)
    (top : state.draft.atTopLevel = true) (resting : AtStatement state) :
    Does (Grammar.stageMethod trait struct name method prototype body.arity) state fun _ last =>
      Declares before last ∧ (Implementing trait struct provided before →
        Implementing trait struct (method.text :: provided) last) := by
  refine does_filesMethod name method returns ?_
  intro signature later isSignature sameArity unknown adds drafts staged here kept
  let filed : StagedMethod := ⟨struct, method.text, ⟨trait.name, state.heap.nextId⟩⟩
  have declares := (returns.adds.trans adds).declares.trans (adds.orderly.stageMethod
    (show later.heap.get? filed.method.closure = _ from here)
    (returns.finished.transfer kept adds.grows.structs) fun other reached => by
      have before := Heap.Reaches.transfer_back kept reached
      rw [kept other before, drafts]
      exact returns.apart other before)
  refine ⟨declares, fun implementing => ?_⟩
  have isName : signature.name = method.text := by simpa using List.find?_some isSignature
  have asked : signature ∈ trait.methods := List.mem_of_find?_eq_some isSignature
  have now : Implementing trait struct provided later :=
    implementing.grown (returns.adds.trans adds).grows (staged.trans returns.staged)
      (returns.adds.trans adds).stages.words
  have notYet : later.findMethod struct signature.name = none := by
    have sameStruct : later.struct? struct = state.struct? struct := by
      rw [State.struct?, adds.grows.registry, staged, State.struct?]
    rw [State.findMethod, sameStruct, staged, isName]
    exact unknown
  refine ⟨now.known, fun worded => ?_, fun other member => ?_⟩
  · have nothing := returns.captures_nothing top resting (adds.stages.words worded)
    have serves : Method.Serves later.heap ⟨trait.name, state.heap.nextId⟩ signature.arity := by
      refine ⟨prototype, body, ?_, ?_, sameArity.symm, nothing, isMethod⟩
      · rw [here, nothing]
        rfl
      · rw [kept prototype (.root List.mem_cons_self)]
        exact returns.finished.1
    rw [← isName]
    exact (now.coherent worded).stageMethod now.known asked notYet serves
  · rcases List.mem_cons.mp member with rfl | old
    · exact ⟨_, List.mem_append_right _ List.mem_cons_self, rfl, rfl, rfl⟩
    · obtain ⟨staged, inside, rest⟩ := now.provided other old
      exact ⟨staged, List.mem_append_left _ inside, rest⟩

variable [declarations : ∀ origin, Keeps (Changes origin) grammar.declaration]

theorem does_implMethod (behaves : grammar.Behaves) {header : Grammar.ImplHeader}
    {trait : TraitType} {struct : StructId} (isTrait : header.trait = some trait)
    (isStruct : header.struct = some struct) (provided : List Text) (orderly : Orderly state)
    (top : state.draft.atTopLevel = true) (resting : AtStatement state) :
    Does (grammar.implMethod header provided) state fun result last =>
      Declares state last ∧ (Implementing trait struct provided state →
        Implementing trait struct result last) := by
  unfold Grammar.implMethod
  rw [isTrait, isStruct]
  dsimp only
  refine does_bind (does_still orderly fun isMethod first passed front => ?_)
  refine does_ite (fun _ => ?_) fun _ => ?_
  · exact does_bind (does_errorHere front.orderly.calm)
  refine does_bind (does_still front.orderly fun method second named next => ?_)
  refine does_bind ((does_function behaves _ (by simp) next.orderly).mono ?_)
  rintro ⟨prototype, arity⟩ third ⟨body, rfl, isMethod, returns⟩
  refine does_ite (fun _ => does_bind (does_errorAt returns.adds.orderly.calm)) fun _ => ?_
  have front := front.trans next
  have idle := passed.trans named
  have grows := (front.trans returns.adds).grows
  refine does_ran rfl (does_bind ((does_stageMethod provided _ method returns isMethod
    (grows.draft.atTopLevel.trans top) (resting.grown grows)).mono ?_))
  rintro _ last ⟨declares, implements⟩
  exact does_pure ⟨front.declares.trans declares, fun implementing =>
    implements (implementing.grown idle.grows idle.staged idle.words.mp)⟩

omit declarations in
/-- Every signature has been met when there is nothing to complain about. -/
theorem does_stageImpl {header : Grammar.ImplHeader} {trait : TraitType} {struct : StructId}
    (isTrait : header.trait = some trait) (isStruct : header.struct = some struct)
    (provided : List Text) (orderly : Orderly state) :
    Does (Grammar.stageImpl header provided) state fun _ last =>
      Declares state last ∧ (Implementing trait struct provided state → last.Tabled) := by
  unfold Grammar.stageImpl
  rw [isTrait, isStruct]
  dsimp only
  let inv : List Signature → State → Prop := fun rest middle => middle = state ∧
    ∀ signature ∈ trait.methods, signature ∈ rest ∨ signature.name ∈ provided
  have starts : inv trait.methods state := ⟨rfl, fun _ => Or.inl⟩
  refine does_bind ((does_forIn (fun signature rest middle holds => ?_) trait.methods starts).mono
    fun _ middle holds => ?_)
  · obtain ⟨rfl, met⟩ := holds
    refine does_ite (fun _ => ?_) fun contained => does_pure ⟨rfl, rfl, fun other member => ?_⟩
    · exact does_ran rfl (does_bind (does_errorAt orderly.calm))
    · rcases met other member with here | there
      · rcases List.mem_cons.mp here with rfl | later
        · exact Or.inr (by simpa using contained)
        · exact Or.inl later
      · exact Or.inr there
  · obtain ⟨rfl, met⟩ := holds
    refine does_modify ⟨orderly.stage _ rfl rfl, fun implementing worded => ?_⟩
    refine (implementing.coherent worded).stageImpl implementing.known fun signature member => ?_
    rcases met signature member with none | there
    · cases none
    · exact implementing.provided signature.name there

omit declarations in
/-- An impl is for a trait and a struct that are known. -/
theorem does_implHeader (orderly : Orderly state) :
    Does Grammar.implHeader state fun header last => Adds 0 state last [] ∧
      ∃ trait struct, header.trait = some trait ∧ header.struct = some struct ∧
        trait ∈ last.registry.traits ++ last.staged.traits := by
  unfold Grammar.implHeader
  refine does_bind (does_idle orderly fun traitName first front => ?_)
  refine does_bind (does_idle front.orderly fun _ second next => ?_)
  refine does_bind (does_idle next.orderly fun typeName third more => does_ran rfl ?_)
  have front := (front.trans next).trans more
  dsimp only
  cases isTrait : third.findTrait traitName.text with
  | none =>
    refine does_andThen (fun _ origin => ?_) (does_errorAt front.orderly.calm)
    refine Keeps.andThen inferInstance fun state => ?_
    dsimp only
    generalize state.findStruct typeName.text = struct
    cases struct <;> infer_instance
  | some trait =>
    refine does_ran rfl ?_
    cases third.findStruct typeName.text with
    | none => exact does_bind (does_errorAt front.orderly.calm)
    | some struct =>
      refine does_ran rfl (does_ite (fun _ => ?_) fun _ => does_pure ?_)
      · exact does_ran rfl (does_bind (does_errorAt front.orderly.calm))
      · exact ⟨front, trait, struct, rfl, rfl, (State.known_trait isTrait).1⟩

theorem does_implDeclaration (behaves : grammar.Behaves) (orderly : Orderly state)
    (resting : AtStatement state) :
    Does grammar.implDeclaration state fun _ last => Adds 0 state last [] := by
  have types : ∀ origin (struct : Option StructId), Keeps (Changes origin)
      (modify fun state : State => { state with implType := struct } : Compile Unit) :=
    fun _ struct => keeps_change fun state => .declare state.globals struct (.refl _)
  have idles : ∀ origin (struct : Option StructId), Keeps (Idle origin)
      (modify fun state : State => { state with implType := struct } : Compile Unit) :=
    fun _ _ => keeps_idle fun _ => ⟨rfl, rfl, rfl, rfl, .rfl, ⟨rfl, rfl, rfl, rfl, rfl, rfl⟩⟩
  unfold Grammar.implDeclaration
  dsimp only
  refine does_ran rfl (does_ite (fun _ => does_bind (does_error orderly.calm)) fun nested => ?_)
  have top : state.draft.atTopLevel = true := by simpa using nested
  refine does_bind ((does_implHeader orderly).mono ?_)
  rintro header first ⟨front, trait, struct, isTrait, isStruct, known⟩
  refine does_bind (does_still front.orderly fun _ second idle opened => ?_)
  refine does_bind (does_still opened.orderly fun _ third idle' typed => ?_)
  have front := (front.trans opened).trans typed
  have idle := idle.trans idle'
  let inv : List Text → State → Prop := fun provided middle =>
    Declares state middle ∧ (state.Tabled → Implementing trait struct provided middle)
  have begins : inv [] third := by
    refine ⟨front.declares, fun tabled => ⟨?_, fun worded => ?_, by simp⟩⟩
    · rw [idle.registry, idle.staged]
      exact known
    · exact (front.stages.tabled tabled worded).open _
  refine does_seq inv (does_iterate inv (fun provided middle sofar => ?_) grammar.bound [] begins)
    fun provided fourth sofar => ?_
  · obtain ⟨declares, implementing⟩ := sofar
    refine does_bind (does_still declares.orderly fun closes fifth looked passed => ?_)
    refine does_bind (does_still passed.orderly fun ends sixth looked' passed' => ?_)
    have looked := looked.trans looked'
    have declares := declares.trans (passed.trans passed').declares
    have implementing := fun tabled =>
      (implementing tabled).grown looked.grows looked.staged looked.words.mp
    refine does_ite (fun _ => does_pure ⟨declares, implementing⟩) fun _ => ?_
    refine does_bind ((does_implMethod behaves isTrait isStruct provided declares.orderly
      (declares.grows.draft.atTopLevel.trans top) (resting.grown declares.grows)).mono ?_)
    rintro result last ⟨more, implements⟩
    exact does_pure ⟨declares.trans more, fun tabled => implements (implementing tabled)⟩
  · obtain ⟨declares, implementing⟩ := sofar
    refine does_bind (does_still declares.orderly fun _ fifth closed passed => ?_)
    refine does_bind (does_still passed.orderly fun _ sixth typed passed' => ?_)
    have closed := closed.trans typed
    have declares := declares.trans (passed.trans passed').declares
    refine (does_stageImpl isTrait isStruct provided declares.orderly).mono ?_
    rintro _ last ⟨more, tabled⟩
    exact (declares.trans more).adds top fun before =>
      tabled ((implementing before).grown closed.grows closed.staged closed.words.mp)

end Methods

section Productions

variable {grammar : Grammar} {state : State}

/-- A field is not declared twice. -/
theorem does_fieldDeclaration (struct : Text) {fields : List Text} (distinct : fields.Nodup)
    (orderly : Orderly state) :
    Does (Grammar.fieldDeclaration struct fields) state fun result last =>
      Idle state last ∧ Adds 0 state last [] ∧ result.Nodup := by
  unfold Grammar.fieldDeclaration
  dsimp only
  refine does_bind (does_still orderly fun field first named front => ?_)
  refine does_ite (fun _ => does_bind (does_errorAt front.orderly.calm)) fun new => ?_
  have longer : (fields ++ [field.text]).Nodup := by
    refine List.nodup_append.mpr ⟨distinct, by simp, fun one inside other isNew => ?_⟩
    rintro rfl
    rw [List.mem_singleton.mp isNew] at inside
    exact new (by simpa using inside)
  refine does_bind (does_still front.orderly fun typed second looked next => ?_)
  have idle := named.trans looked
  have front := front.trans next
  refine does_ite (fun _ => ?_) fun _ => does_pure ⟨idle, front, longer⟩
  refine does_bind (does_still front.orderly fun type third typed more => does_ran rfl ?_)
  refine does_ite (fun _ => does_bind (does_errorAt more.orderly.calm)) fun _ => does_pure ?_
  exact ⟨idle.trans typed, front.trans more, longer⟩

theorem does_structDeclaration (orderly : Orderly state) :
    Does grammar.structDeclaration state fun _ last => Adds 0 state last [] := by
  unfold Grammar.structDeclaration
  dsimp only
  refine does_ran rfl (does_ite (fun _ => does_bind (does_error orderly.calm)) fun nested => ?_)
  have top : state.draft.atTopLevel = true := by simpa using nested
  refine does_bind (does_still orderly fun name first looked named => does_ran rfl ?_)
  have declares : ∀ (fields : List Text) middle, fields.Nodup → Idle first middle →
      Adds 0 state middle [] → first.findStruct name.text = none → Does (do
      let _ ← expect .rightBrace "'\x7d' after struct fields"
      if !(first.findStruct name.text).isSome && (← atTopLevel) then
        modifyStaged fun staged =>
          { staged with structs := staged.structs.push { name := name.text, fields } }) middle
        fun _ last => Adds 0 state last [] := by
    intro fields middle distinct idle sofar unknown
    refine does_bind (does_still sofar.orderly fun _ second closed next => does_ran rfl ?_)
    have sofar := sofar.trans next
    refine does_ite (fun _ => does_modify ?_) fun _ => does_pure sofar
    refine (sofar.declares.trans (next.orderly.stageStruct rfl)).adds top fun tabled worded => ?_
    refine (sofar.stages.tabled tabled worded).stageStruct ?_ distinct
    rw [(idle.trans closed).findStruct]
    exact unknown
  refine does_ite (fun _ => does_bind (does_errorAt named.orderly.calm)) fun known => ?_
  have unknown : first.findStruct name.text = none := by simpa using known
  refine does_bind (does_still named.orderly fun _ second opened next => ?_)
  refine does_bind (does_still next.orderly fun _ third checked next' => ?_)
  have idle := opened.trans checked
  have front := (named.trans next).trans next'
  refine does_ite (fun _ => ?_) fun _ => declares [] third .nil idle front unknown
  let inv : List Text → State → Prop := fun fields middle =>
    Idle first middle ∧ Adds 0 state middle [] ∧ fields.Nodup
  refine does_seq inv (does_iterate inv (fun fields middle sofar => ?_) grammar.bound []
    ⟨idle, front, .nil⟩) fun fields fourth sofar => ?_
  · obtain ⟨idle, front, distinct⟩ := sofar
    refine does_bind (does_still front.orderly fun closes fifth checked next => ?_)
    have idle := idle.trans checked
    have front := front.trans next
    refine does_ite (fun _ => does_pure ⟨idle, front, distinct⟩) fun _ => ?_
    refine does_bind ((does_fieldDeclaration _ distinct front.orderly).mono ?_)
    rintro longer sixth ⟨listed, more, distinct⟩
    refine does_bind (does_still more.orderly fun again last passed next => does_pure ?_)
    have ends : inv longer last :=
      ⟨(idle.trans listed).trans passed, (front.trans more).trans next, distinct⟩
    cases again
    · exact ends
    · exact ends
  · obtain ⟨idle, front, distinct⟩ := sofar
    exact declares fields fourth distinct idle front unknown

/-- A signature is not declared twice. -/
theorem does_signature (trait : Text) {signatures : List Signature}
    (distinct : (signatures.map Signature.name).Nodup) (orderly : Orderly state) :
    Does (grammar.signature trait signatures) state fun result last =>
      Idle state last ∧ Adds 0 state last [] ∧ (result.map Signature.name).Nodup := by
  unfold Grammar.signature
  refine does_bind (does_still orderly fun isFn first passed front => ?_)
  refine does_ite (fun _ => does_bind (does_errorHere front.orderly.calm)) fun _ => ?_
  refine does_bind (does_still front.orderly fun method second named next => ?_)
  refine does_bind (does_still next.orderly fun _ third opened next' => ?_)
  refine does_bind (does_still next'.orderly fun arity fourth counted more => ?_)
  refine does_bind (does_still more.orderly fun _ fifth closed more' => ?_)
  refine does_bind (does_still more'.orderly fun _ last ended rest => ?_)
  have idle := ((((passed.trans named).trans opened).trans counted).trans closed).trans ended
  have front := ((((front.trans next).trans next').trans more).trans more').trans rest
  refine does_ite (fun _ => does_bind (does_errorAt front.orderly.calm)) fun new => does_pure ?_
  refine ⟨idle, front, ?_⟩
  rw [List.map_append]
  refine List.nodup_append.mpr ⟨distinct, by simp, fun one inside other isNew => ?_⟩
  rintro rfl
  obtain ⟨known, member, same⟩ := List.mem_map.mp inside
  have isName : one = method.text := List.mem_singleton.mp isNew
  exact new (List.any_eq_true.mpr ⟨known, member, by simp [same, isName]⟩)

theorem does_traitDeclaration (orderly : Orderly state) :
    Does grammar.traitDeclaration state fun _ last => Adds 0 state last [] := by
  unfold Grammar.traitDeclaration
  dsimp only
  refine does_ran rfl (does_ite (fun _ => does_bind (does_error orderly.calm)) fun nested => ?_)
  have top : state.draft.atTopLevel = true := by simpa using nested
  refine does_bind (does_still orderly fun name first looked named => does_ran rfl ?_)
  refine does_ite (fun _ => does_bind (does_errorAt named.orderly.calm)) fun known => ?_
  have unknown : first.findTrait name.text = none := by simpa using known
  refine does_bind (does_still named.orderly fun _ second opened next => ?_)
  let inv : List Signature → State → Prop := fun signatures middle =>
    Idle first middle ∧ Adds 0 state middle [] ∧ (signatures.map Signature.name).Nodup
  refine does_seq inv (does_iterate inv (fun signatures middle sofar => ?_) grammar.bound []
    ⟨opened, named.trans next, .nil⟩) fun signatures fourth sofar => ?_
  · obtain ⟨idle, front, distinct⟩ := sofar
    refine does_bind (does_still front.orderly fun closes fifth checked next => ?_)
    refine does_bind (does_still next.orderly fun ends sixth checked' next' => ?_)
    have idle := (idle.trans checked).trans checked'
    have front := (front.trans next).trans next'
    refine does_ite (fun _ => does_pure ⟨idle, front, distinct⟩) fun _ => ?_
    refine does_bind ((does_signature _ distinct front.orderly).mono ?_)
    rintro longer last ⟨listed, more, distinct⟩
    exact does_pure ⟨idle.trans listed, front.trans more, distinct⟩
  · obtain ⟨idle, front, distinct⟩ := sofar
    refine does_bind (does_still front.orderly fun _ last closed next => does_ran rfl ?_)
    have front := front.trans next
    refine does_ite (fun _ => does_modify ?_) fun _ => does_pure front
    have stays := next.orderly.stage { last.staged with
      traits := last.staged.traits ++ [{ name := name.text, methods := signatures }] } rfl rfl
    refine (front.declares.trans stays).adds top fun tabled worded => ?_
    refine (front.stages.tabled tabled worded).stageTrait ?_ distinct
    rw [(idle.trans closed).findTrait]
    exact unknown

variable [declarations : ∀ origin, Keeps (Changes origin) grammar.declaration]

theorem does_fnDeclaration (behaves : grammar.Behaves) (orderly : Orderly state)
    (resting : AtStatement state) :
    Does grammar.fnDeclaration state fun _ last => ∃ added, Runs added state last := by
  unfold Grammar.fnDeclaration
  dsimp only
  refine does_bind (does_pass (orderly.still 0) fun name first front => does_ran rfl ?_)
  have resting := resting.grown front.grows
  cases top : first.draft.atTopLevel with
  | true =>
    simp only [Bool.not_true, if_true, if_false, Bool.false_eq_true]
    refine does_bind ((does_function behaves _ (by simp) front.orderly).mono ?_)
    rintro ⟨prototype, arity⟩ second ⟨body, _, _, returns⟩
    refine does_bind (does_fileFunction returns ?_)
    refine does_bind (does_emitClosure returns fun third makes => ?_)
    exact (does_defineGlobal _ _ (makes.after returns.adds).moves).mono fun _ _ runs =>
      ⟨_, front.runs.trans runs⟩
  | false =>
    simp only [Bool.not_false, if_true, if_false, Bool.false_eq_true]
    have declared : Orderly (first.declared name.text) := front.orderly.declared resting
    refine does_bind (does_declareLocal front.orderly.calm ?_)
    refine does_bind (does_markInitialized (resting.deep top) ?_)
    refine does_bind ((does_function behaves _ (by simp)
      (declared.marked (.refl _) (resting.deep top))).mono ?_)
    rintro ⟨prototype, arity⟩ second ⟨body, _, _, returns⟩
    refine does_bind (does_fileFunction returns ?_)
    refine does_bind (does_emitClosure returns fun third makes => ?_)
    have runs := (makes.after returns.adds).runs
    exact does_idle runs.orderly fun _ last shaped =>
      ⟨_, front.runs.trans (runs.trans (shaped.nothing 0).runs)⟩

variable [operands : ∀ origin level, Keeps (Changes origin) (grammar.operand level)]
  [statements : ∀ origin, Keeps (Changes origin) grammar.statement]

theorem does_parseDeclaration (behaves : grammar.Behaves) (orderly : Orderly state)
    (resting : AtStatement state) :
    Does grammar.parseDeclaration state fun _ last => ∃ added, Runs added state last := by
  have recovers : ∀ {middle : State}, (∃ added, Runs added state middle) → Does (do
      if (← get).panicking then
        synchronize grammar.bound) middle fun _ last => ∃ added, Runs added state last := by
    rintro middle ⟨added, runs⟩
    refine does_ran rfl (does_ite (fun _ => ?_) fun _ => does_pure ⟨added, runs⟩)
    exact does_idle runs.orderly fun _ last idle => ⟨_, runs.trans (idle.nothing 0).runs⟩
  unfold Grammar.parseDeclaration
  dsimp only
  refine does_bind (does_pass (orderly.still 0) fun _ first moved => ?_)
  refine does_ite (fun _ => ?_) fun _ => ?_
  · exact does_bind ((does_structDeclaration moved.orderly).mono fun _ _ adds =>
      recovers ⟨_, moved.runs.trans (adds.nothing 0).runs⟩)
  refine does_bind (does_pass moved fun _ second moved => ?_)
  refine does_ite (fun _ => ?_) fun _ => ?_
  · exact does_bind ((does_traitDeclaration moved.orderly).mono fun _ _ adds =>
      recovers ⟨_, moved.runs.trans (adds.nothing 0).runs⟩)
  refine does_bind (does_pass moved fun _ third moved => ?_)
  refine does_ite (fun _ => ?_) fun _ => ?_
  · exact does_bind ((does_implDeclaration behaves moved.orderly
      (resting.grown moved.grows)).mono fun _ _ adds => recovers ⟨_, moved.runs.trans (adds.nothing 0).runs⟩)
  refine does_bind (does_pass moved fun _ fourth moved => does_ran rfl ?_)
  refine does_ite (fun _ => ?_) fun _ => ?_
  · refine does_bind (does_pass moved fun _ fifth moved => ?_)
    refine does_bind ((does_fnDeclaration behaves moved.orderly
      (resting.grown moved.grows)).mono ?_)
    exact fun _ _ runs => recovers (runs.imp fun _ runs => moved.runs.trans runs)
  refine does_bind (does_pass moved fun _ fifth moved => ?_)
  refine does_ite (fun _ => ?_) fun _ => ?_
  · refine does_bind ((does_varDeclaration behaves moved.orderly
      (resting.grown moved.grows)).mono ?_)
    exact fun _ _ runs => recovers (runs.imp fun _ runs => moved.runs.trans runs)
  · refine does_bind ((does_parseStatement behaves moved.orderly
      (resting.grown moved.grows)).mono ?_)
    exact fun _ _ runs => recovers ⟨_, moved.runs.trans runs⟩

end Productions

end ScriptMachine.Compiler
