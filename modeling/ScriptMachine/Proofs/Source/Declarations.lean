import ScriptMachine.Proofs.Source.Statements

set_option autoImplicit false
set_option synthInstance.maxSize 20000

/- The code of a declaration is that of the tree that is read. Declarations of structs, traits and
impls have none; what they declare is registered. -/
namespace ScriptMachine.Compiler

open Source (Reading Locals Scope Context Place Productions Form Laying Expression Statement Routine
  closes)

section Functions

variable {grammar : Grammar} {nested : Productions} {state later : State} {form : Form} {name : Text}

/-- Code that has been written where the local that it is for could be read already. -/
theorem Builds.inSlot (builds : Builds form (state.declared name).marked later)
    (changes : Changes state later) :
    Lays (fun context declared start code =>
      (∃ flag, declared = [(name, flag)]) ∧ form (context.declare declared) start code)
      state later := by
  obtain ⟨code, comes, means⟩ := builds
  have adds := comes.adds
  have grows : Grows 1 state later := by
    have declared := (Grows.marked (.refl (state.declared name))).trans adds.grows
    rwa [Nat.zero_add] at declared
  have stages : Stages state later := ⟨adds.stages.words, adds.stages.nested, adds.stages.tabled⟩
  refine ⟨comes.nesting, changes, 1, code, ⟨adds.orderly, grows, stages, adds.code⟩,
    fun context foretells => ?_⟩
  obtain ⟨newest, named, visible⟩ := visible_marked (.refl (state.declared name))
  have names := (foretells.same adds.grows).names
  have whole := means context foretells
  rw [visible] at names
  obtain ⟨setting, locals, around, topLevel⟩ := context
  cases locals with
  | nil => cases names
  | cons found older =>
    obtain ⟨isName, -⟩ := List.cons.inj names
    refine ⟨⟨found.2, ?_⟩, whole⟩
    rw [List.take_succ_cons, List.take_zero, ← named, ← isName]

variable [declarations : ∀ origin, Keeps (Changes origin) grammar.declaration]

theorem follows_fnDeclaration (behaves : grammar.Behaves) (mirrors : Mirrors grammar nested)
    (meets : Meets nested state) (resting : AtStatement state) :
    Follows grammar.fnDeclaration nested.fnDeclaration state fun _ tree last =>
      Lays tree.Codes state last ∧ last.knows = state.knows := by
  unfold Grammar.fnDeclaration Productions.fnDeclaration
  dsimp only
  refine follows_expect meets.orderly fun name first _ passed => follows_ran rfl rfl ?_
  have front := passed.comes
  have meets := front.meets meets
  have resting := resting.grown front.adds.grows
  cases top : first.draft.atTopLevel with
  | true =>
    simp only [Bool.not_true, if_true, if_false, Bool.false_eq_true]
    refine follows_bind ((follows_routine behaves mirrors _ (by simp) meets).mono ?_)
    rintro ⟨prototype, arity⟩ routine second ⟨body, -, -, makes⟩
    refine follows_closure makes meets.worded fun third _ built => ?_
    have built := built.behind (front.trans makes.comes)
    have still : third.draft.atTopLevel = true := by
      rw [built.grows.draft.atTopLevel, ← front.adds.grows.draft.atTopLevel, top]
    exact follows_defineGlobal (fun declared context =>
      closes (routine.Codes name.text false) (context.declare declared)) _ built still
        fun last _ lays knows => ⟨lays, knows⟩
  | false =>
    simp only [Bool.not_false, if_true, if_false, Bool.false_eq_true]
    have deep := resting.deep top
    have declared := meets.declared resting name.text
    have calm : Calm (first.declared name.text) := declared.orderly.calm
    refine follows_still front.orderly.calm (does_declareLocal front.orderly.calm fun declares => ?_)
    refine follows_still calm (does_markInitialized deep fun marked => ?_)
    have inner : Meets nested (first.declared name.text).marked :=
      ⟨declared.orderly.marked (.refl _) deep, meets.knows,
        capturesOnce_of_changes marked.changes declared.once,
        (worded_of_changes marked.changes).mpr declared.worded⟩
    refine follows_bind ((follows_routine behaves mirrors _ (by simp) inner).mono ?_)
    rintro ⟨prototype, arity⟩ routine second ⟨body, -, -, makes⟩
    refine follows_closure makes inner.worded fun third _ built => ?_
    have built := built.behind makes.comes
    refine follows_last built.orderly.calm (does_idle built.orderly fun _ last idle shaped => ?_)
    have built := built.before (shaped.comes idle)
    have lays := built.inSlot ((declares.changes.trans marked.changes).trans built.changes)
    refine ⟨(lays.behind front).defines ?_, ?_⟩
    · rw [lays.atTopLevel, top]
    · rw [built.stays.knows, ← front.toStays.knows]
      rfl

end Functions

section Types

variable {grammar : Grammar} {nested : Productions} {state : State}

theorem follows_field (struct : Text) (fields : List Text) (orderly : Orderly state) :
    Follows (Grammar.fieldDeclaration struct fields) Productions.field state fun result read last =>
      result = fields ++ [read] ∧ Comes state last [] := by
  unfold Grammar.fieldDeclaration Productions.field
  dsimp only
  refine follows_expect orderly fun field first _ passed => ?_
  refine follows_test (fun _ => follows_errorAt passed.comes.orderly.calm) fun _ => ?_
  refine follows_accept passed.comes.orderly (fun _ second _ colon => ?_) fun _ =>
    follows_pure ⟨rfl, passed.comes⟩
  refine follows_expect colon.comes.orderly fun type third _ typed => follows_ran rfl rfl ?_
  refine follows_test (fun _ => follows_errorAt typed.comes.orderly.calm) fun _ => ?_
  exact follows_pure ⟨rfl, (passed.comes.trans colon.comes).trans typed.comes⟩

/-- A struct has been declared. -/
structure Founds (name : Text) (fields : List Text) (before after : State) : Prop where
  top : before.draft.atTopLevel = true
  nesting : after.nesting = before.nesting
  known : after.known = fun other => before.known other ∨ name = other
  found : ∃ id, after.findStruct name = some id ∧ after.struct? id = some { name, fields }

/-- A struct that has just been staged is found by its name. -/
theorem found_pushed {name : Text} (unknown : state.findStruct name = none) (fields : List Text) :
    ∃ id, State.findStruct { state with
      staged := { state.staged with structs := state.staged.structs.push { name, fields } } } name
        = some id ∧ State.struct? { state with
      staged := { state.staged with structs := state.staged.structs.push { name, fields } } } id
        = some { name, fields } := by
  have others := State.unknown_struct unknown
  refine ⟨(state.registry.structs ++ state.staged.structs).size, ?_, ?_⟩
  · rw [State.findStruct_eq]
    dsimp only
    rw [← Array.push_append, Array.findIdx?_push, Array.findIdx?_eq_none_iff.mpr]
    · simp
    · exact fun type member => by simpa using others type member
  · rw [State.struct?_eq]
    dsimp only
    rw [← Array.push_append]
    exact Array.getElem?_push_size

theorem follows_structDeclaration (bound : nested.bound = grammar.bound) (orderly : Orderly state) :
    Follows grammar.structDeclaration nested.structDeclaration state fun _ tree last =>
      ∃ name fields, tree = .struct name fields ∧ Founds name fields state last := by
  unfold Grammar.structDeclaration Productions.structDeclaration
  rw [bound]
  dsimp only
  refine follows_ran rfl rfl (follows_test (fun _ => follows_error orderly.calm) fun nested => ?_)
  have top : state.draft.atTopLevel = true := by simpa using nested
  refine follows_expect orderly fun name first _ named => follows_ran rfl rfl ?_
  have ends : ∀ (fields found : List Text) middle, fields = found → Comes first middle [] →
      first.findStruct name.text = none → Follows (do
        let _ ← expect .rightBrace "'\x7d' after struct fields"
        if !(first.findStruct name.text).isSome && (← atTopLevel) then
          modifyStaged fun staged =>
            { staged with structs := staged.structs.push { name := name.text, fields } }) (do
        let _ ← Reading.expect .rightBrace
        return Statement.struct name.text found) middle fun _ tree last =>
          ∃ name fields, tree = .struct name fields ∧ Founds name fields state last := by
    rintro fields _ middle rfl sofar unknown
    refine follows_expect sofar.orderly fun _ second _ closed => follows_ran rfl rfl ?_
    have sofar := sofar.trans closed.comes
    have still : second.draft.atTopLevel = true := by
      rw [(named.comes.trans sofar).adds.grows.draft.atTopLevel, top]
    have staying := (named.comes.trans sofar).toStays
    have new : second.findStruct name.text = none := by
      have same := congrFun sofar.toStays.knows name.text
      rw [State.knows, State.knows, unknown] at same
      simpa using same
    refine follows_test (fun _ => ?_) fun other => ?_
    · refine does_modify ⟨_, rfl, name.text, fields, rfl, top, staying.nesting, ?_, ?_⟩
      · rw [known_pushed, staying.known]
      · exact found_pushed new fields
    · exact absurd (by rw [unknown, still]; rfl) other
  refine follows_test (fun _ => follows_errorAt named.comes.orderly.calm) fun known => ?_
  have unknown : first.findStruct name.text = none := by simpa using known
  refine follows_expect named.comes.orderly fun _ second _ opened => ?_
  refine follows_check (follows_ite .rfl (fun _ => ?_) fun _ =>
    ends [] [] second rfl opened.comes unknown)
  let inv : List Text → List Text → State → Prop := fun fields found middle =>
    fields = found ∧ Comes first middle []
  refine follows_seq inv (follows_iterate inv (fun fields found round holds => ?_) grammar.bound []
    [] ⟨rfl, opened.comes⟩) fun fields found middle holds =>
      ends fields found middle holds.1 holds.2 unknown
  obtain ⟨rfl, sofar⟩ := holds
  refine follows_check (follows_ite .rfl (fun _ => follows_pure ⟨rfl, rfl, sofar⟩) fun _ => ?_)
  refine follows_bind ((follows_field _ fields sofar.orderly).mono ?_)
  rintro _ field third ⟨rfl, listed⟩
  have sofar := sofar.trans listed
  refine follows_accept sofar.orderly (fun _ last _ comma => ?_) fun _ => ?_
  · exact follows_pure ⟨rfl, rfl, sofar.trans comma.comes⟩
  · exact follows_pure ⟨rfl, rfl, sofar⟩

theorem follows_signature (bound : nested.bound = grammar.bound) (trait : Text)
    (signatures : List Signature) (orderly : Orderly state) :
    Follows (grammar.signature trait signatures) nested.signature state fun _ _ last =>
      Comes state last [] := by
  have counts : ∀ {front : State}, Comes state front [] →
      Follows grammar.signatureArity nested.parameters front fun _ _ last => Comes state last [] := by
    intro front comes
    unfold Grammar.signatureArity Productions.parameters
    rw [bound]
    refine follows_check ?_
    cases front.pending.head?.any fun token => token.kind == .rightParen with
    | true => exact follows_pure comes
    | false =>
      let inv : Nat → List Text → State → Prop := fun _ _ middle => Comes state middle []
      refine follows_iterate inv (fun arity names middle holds => ?_) grammar.bound 0 [] comes
      have sofar : Comes state middle [] := holds
      refine follows_expect sofar.orderly fun _ first _ passed => ?_
      have sofar := sofar.trans passed.comes
      refine follows_accept sofar.orderly (fun _ last _ comma => ?_) fun _ => ?_
      · exact follows_pure ⟨rfl, sofar.trans comma.comes⟩
      · exact follows_pure ⟨rfl, sofar⟩
  unfold Grammar.signature Productions.signature
  refine follows_accept orderly (fun _ first _ passed => ?_) fun _ => follows_errorHere orderly.calm
  refine follows_expect passed.comes.orderly fun method second _ named => ?_
  refine follows_expect named.comes.orderly fun _ third _ opened => ?_
  refine follows_bind ((counts ((passed.comes.trans named.comes).trans opened.comes)).mono ?_)
  intro arity _ fourth sofar
  refine follows_expect sofar.orderly fun _ fifth _ closed => ?_
  refine follows_expect closed.comes.orderly fun _ last _ ended => ?_
  refine follows_test (fun _ => follows_errorAt ended.comes.orderly.calm) fun _ => follows_pure ?_
  exact (sofar.trans closed.comes).trans ended.comes

theorem follows_traitDeclaration (bound : nested.bound = grammar.bound) (orderly : Orderly state) :
    Follows grammar.traitDeclaration nested.traitDeclaration state fun _ tree last =>
      (∃ name, tree = .trait name) ∧ Stays state last := by
  unfold Grammar.traitDeclaration Productions.traitDeclaration
  rw [bound]
  dsimp only
  refine follows_ran rfl rfl (follows_test (fun _ => follows_error orderly.calm) fun nested => ?_)
  refine follows_expect orderly fun name first _ named => follows_ran rfl rfl ?_
  refine follows_test (fun _ => follows_errorAt named.comes.orderly.calm) fun known => ?_
  refine follows_expect named.comes.orderly fun _ second _ opened => ?_
  let inv : List Signature → Unit → State → Prop := fun _ _ middle => Comes state middle []
  refine follows_seq inv (follows_iterate inv (fun signatures _ middle holds => ?_) grammar.bound []
    () (named.comes.trans opened.comes)) fun signatures _ fourth holds => ?_
  · have sofar : Comes state middle [] := holds
    refine follows_check (follows_atEnd (follows_ite .rfl (fun _ => follows_pure ⟨rfl, sofar⟩)
      fun _ => ?_))
    refine follows_bind ((follows_signature bound name.text signatures sofar.orderly).mono ?_)
    exact fun _ _ last more => follows_pure ⟨rfl, sofar.trans more⟩
  · have sofar : Comes state fourth [] := holds
    refine follows_expect sofar.orderly fun _ last _ closed => follows_ran rfl rfl ?_
    have sofar := (sofar.trans closed.comes).toStays
    refine follows_test (fun _ => ?_) fun _ => follows_pure ⟨⟨_, rfl⟩, sofar⟩
    exact does_modify ⟨_, rfl, ⟨_, rfl⟩, sofar.nesting, sofar.known⟩

end Types

section Methods

variable {grammar : Grammar} {nested : Productions} {origin state last : State}

/-- The names before the body of an impl. -/
theorem follows_implHeader (orderly : Orderly state) :
    Follows Grammar.implHeader (do
      let trait ← Reading.expect .identifier
      let _ ← Reading.expect .forWord
      let struct ← Reading.expect .identifier
      return (trait, struct)) state fun header names last => Comes state last [] ∧
        ∃ trait struct, header = ⟨some trait, some struct, names.2⟩ ∧ trait.name = names.1.text ∧
          last.findStruct names.2.text = some struct := by
  unfold Grammar.implHeader
  refine follows_expect orderly fun traitName first _ one => ?_
  refine follows_expect one.comes.orderly fun _ second _ two => ?_
  refine follows_expect two.comes.orderly fun typeName third _ three => follows_ran rfl rfl ?_
  have front := (one.comes.trans two.comes).trans three.comes
  have calm := front.orderly.calm
  dsimp only
  cases isTrait : third.findTrait traitName.text with
  | none =>
    refine does_andThen (fun _ origin => ?_) (does_errorAt calm)
    refine Keeps.andThen inferInstance fun state => ?_
    dsimp only
    generalize state.findStruct typeName.text = struct
    cases struct <;> infer_instance
  | some trait =>
    refine follows_ran rfl rfl ?_
    cases isStruct : third.findStruct typeName.text with
    | none => exact follows_errorAt calm
    | some struct =>
      refine follows_ran rfl rfl (follows_test (fun _ => ?_) fun _ => follows_pure ?_)
      · exact follows_ran rfl rfl (follows_errorAt calm)
      · exact ⟨front, trait, struct, rfl, (State.known_trait isTrait).2, isStruct⟩

/-- The methods that have been compiled for a struct are those that are registered for it. -/
def Provides (trait : Text) (struct : StructId) (name : Text) (methods : List (Text × Routine))
    (state : State) : Prop :=
  ∀ context type, Foretells context state → context.registry.struct? struct = some type →
    type.name = name → Source.codesMethods trait type methods context

theorem Provides.grown {trait name : Text} {struct : StructId} {methods : List (Text × Routine)}
    (provides : Provides trait struct name methods state) (grows : Grows 0 state last) :
    Provides trait struct name methods last :=
  fun context type foretells => provides context type (foretells.same grows)

theorem codesMethods_append {trait : Text} {type : StructType} {one two : List (Text × Routine)}
    {context : Context} (first : Source.codesMethods trait type one context)
    (second : Source.codesMethods trait type two context) :
    Source.codesMethods trait type (one ++ two) context := by
  induction one with
  | nil => exact second
  | cons method rest ih => exact ⟨first.1, ih first.2⟩

/-- A method that has been compiled is staged with a closure of its own. -/
theorem does_provides {routine : Routine} {trait : TraitType} {struct : StructId} {typeName : Text}
    {prototype : ObjectId} {body : Prototype} (name : Text) (method : Token)
    (makes : Makes (routine.Codes (typeName ++ ascii "." ++ method.text) true) origin state prototype
      body) (isMethod : body.isMethod = true) (top : state.draft.atTopLevel = true)
    (resting : AtStatement state) :
    Does (Grammar.stageMethod trait struct name method prototype body.arity) state fun _ last =>
      Declares origin last ∧
        Provides trait.name struct typeName [(method.text, routine)] last := by
  have declared : Does (Grammar.stageMethod trait struct name method prototype body.arity) state
      fun _ last => Declares origin last :=
    (does_stageMethod [] name method makes.returns isMethod top resting).mono fun _ _ holds => holds.1
  refine declared.and (does_filesMethod name method makes.returns ?_)
  intro _ later _ _ _ adds _ staged here kept context type foretells isType named
  let filed : StagedMethod := ⟨struct, method.text, ⟨trait.name, state.heap.nextId⟩⟩
  have found := foretells.methods filed (List.mem_append_right _ List.mem_cons_self) type isType
  have root : filed.method.closure
      ∈ (later.staged.methods ++ [filed]).map fun staged => staged.method.closure :=
    List.mem_map_of_mem (List.mem_append_right _ List.mem_cons_self)
  have reached : ∀ id, Heap.Reaches state.heap.objects [prototype] id →
      context.heap.get? id = state.heap.get? id := by
    intro id isReached
    rw [← kept id isReached]
    refine foretells.kept id ?_
    refine (isReached.transfer kept fun _ member => member).mono fun inner member => ?_
    rw [List.mem_singleton.mp member]
    exact .next (.root root) here List.mem_cons_self
  have prior : Foretells context later :=
    { sees := ⟨foretells.sees.heap, foretells.sees.constants, foretells.sees.captures,
        foretells.sees.layouts, foretells.sees.knows, foretells.sees.flags⟩
      names := foretells.names
      around := foretells.around
      structs := foretells.structs
      methods := fun other member => foretells.methods other (List.mem_append_left _ member)
      kept := fun id isReached => foretells.kept id (isReached.mono fun inner member => .root (by
        rw [List.map_append]
        exact List.mem_append_left _ member))
      topLevel := foretells.topLevel }
  refine ⟨⟨filed.method.closure, prototype, Array.replicate body.captures.size none, body, found, ?_, ?_, ?_⟩,
    trivial⟩
  · exact (foretells.kept _ (.root root)).trans here
  · rw [reached prototype (.root List.mem_cons_self), makes.returns.finished.1]
  · rw [named]
    exact makes.spells context (prior.same adds.grows).allows reached

variable [declarations : ∀ origin, Keeps (Changes origin) grammar.declaration]

/-- An impl is being compiled. -/
structure Fulfils (trait : Text) (struct : StructId) (name : Text) (methods : List (Text × Routine))
    (origin state : State) : Prop where
  declares : Declares origin state
  stays : Stays origin state
  changes : Changes origin state
  provides : Provides trait struct name methods state

theorem Fulfils.idle {trait name : Text} {struct : StructId} {methods : List (Text × Routine)}
    (fulfils : Fulfils trait struct name methods origin state) (comes : Comes state last []) :
    Fulfils trait struct name methods origin last where
  declares := fulfils.declares.trans comes.adds.declares
  stays := fulfils.stays.trans comes.toStays
  changes := fulfils.changes.trans comes.changes
  provides := fulfils.provides.grown comes.adds.grows

theorem follows_implMethod (behaves : grammar.Behaves) (mirrors : Mirrors grammar nested)
    (meets : Meets nested origin) (top : origin.draft.atTopLevel = true)
    (resting : AtStatement origin) {trait : TraitType} {struct : StructId} {typeName : Token}
    {methods : List (Text × Routine)} (provided : List Text)
    (fulfils : Fulfils trait.name struct typeName.text methods origin state) :
    Follows (grammar.implMethod ⟨some trait, some struct, typeName⟩ provided) nested.method state
      fun _ method last =>
        Fulfils trait.name struct typeName.text (methods ++ [method]) origin last := by
  unfold Grammar.implMethod Productions.method
  dsimp only
  refine follows_accept fulfils.declares.orderly (fun _ first _ passed => ?_) fun _ =>
    follows_errorHere fulfils.declares.orderly.calm
  rw [if_neg (by simp), if_pos rfl]
  have front := fulfils.idle passed.comes
  refine follows_expect front.declares.orderly fun method second _ named => ?_
  have front := front.idle named.comes
  have knows : second.knows = origin.knows := front.stays.knows
  refine follows_bind ((follows_routine behaves mirrors _ (by simp)
    ⟨front.declares.orderly, knows.trans meets.knows,
      capturesOnce_of_changes front.changes meets.once,
      (worded_of_changes front.changes).mpr meets.worded⟩).mono ?_)
  rintro ⟨prototype, _⟩ routine third ⟨body, rfl, isMethod, makes⟩
  have behind := front.idle makes.comes
  have grows := behind.declares.grows
  have answers := @unmoved_implAnswer False third ⟨some trait, some struct, typeName⟩ provided method
    prototype body.arity
  refine follows_last behind.declares.orderly.calm ?_
  refine does_ite (fun _ => does_bind (does_errorAt behind.declares.orderly.calm)) fun _ => ?_
  refine does_ran rfl (does_bind ((does_provides _ method makes isMethod
    (grows.draft.atTopLevel.trans top) (resting.grown grows)).mono ?_))
  rintro _ last ⟨declares, provides⟩
  refine does_pure fun rests => ⟨front.declares.trans declares, behind.stays.trans rests.toStays,
    behind.changes.trans rests.changes, fun context type foretells isType isName => ?_⟩
  exact codesMethods_append
    (front.provides context type (foretells.same declares.grows) isType isName)
    (provides context type foretells isType isName)

omit declarations in
theorem struct?_of_registered {registry : Registry} {name : Text} {id : StructId}
    (found : registry.findStruct name = some id) :
    ∃ type, registry.struct? id = some type ∧ type.name = name := by
  obtain ⟨inside, isIt, _⟩ := Array.findIdx?_eq_some_iff_getElem.mp found
  exact ⟨_, Array.getElem?_eq_getElem inside, by simpa using isIt⟩

omit declarations in
/-- A struct that has been declared has no code. -/
theorem Founds.lays {name : Text} {fields : List Text} (founds : Founds name fields state last)
    (adds : Adds 0 state last []) (changes : Changes state last) :
    Lays (Statement.struct name fields).Codes state last := by
  refine ⟨founds.nesting, changes, 0, [], adds, fun context foretells => ⟨rfl, rfl, ?_, ?_⟩⟩
  · rw [foretells.topLevel, adds.grows.draft.atTopLevel, founds.top]
  · obtain ⟨id, isStruct, known⟩ := founds.found
    have registered := foretells.structs name id isStruct
    obtain ⟨type, isType, isName⟩ := struct?_of_registered registered
    obtain ⟨same, isSame, fields⟩ := foretells.sees.knows id _ known
    cases isType.symm.trans isSame
    exact ⟨id, type, registered, isType, isName, fields⟩

/-- An impl has been declared. -/
structure Endows (trait name : Text) (methods : List (Text × Routine)) (before after : State) :
    Prop where
  top : before.draft.atTopLevel = true
  stays : Stays before after
  found : ∃ struct, after.findStruct name = some struct ∧ Provides trait struct name methods after

theorem follows_implDeclaration (behaves : grammar.Behaves) (mirrors : Mirrors grammar nested)
    (meets : Meets nested state) (resting : AtStatement state) :
    Follows grammar.implDeclaration nested.implDeclaration state fun _ tree last =>
      ∃ trait name methods, tree = .impl trait name methods ∧ Endows trait name methods state last := by
  have types : ∀ origin (struct : Option StructId), Keeps (Changes origin)
      (modify fun state : State => { state with implType := struct } : Compile Unit) :=
    fun _ struct => keeps_change fun state => .declare state.globals struct (.refl _)
  have idles : ∀ origin (struct : Option StructId), Keeps (Idle origin)
      (modify fun state : State => { state with implType := struct } : Compile Unit) :=
    fun _ _ => keeps_idle fun _ => ⟨rfl, rfl, rfl, rfl, .rfl, ⟨rfl, rfl, rfl, rfl, rfl, rfl⟩⟩
  have reads : nested.implDeclaration = (do
      let trait ← Reading.expect .identifier
      let _ ← Reading.expect .forWord
      let struct ← Reading.expect .identifier
      return (trait, struct)) >>= fun names => (do
        let _ ← Reading.expect .leftBrace
        let methods ← Reading.iterate nested.bound [] fun methods => do
          if (← Reading.check .rightBrace) || (← Reading.atEnd) then return (methods, false)
          let method ← nested.method
          return (methods ++ [method], true)
        let _ ← Reading.expect .rightBrace
        return .impl names.1.text names.2.text methods) := by
    simp only [Productions.implDeclaration, bind_assoc, pure_bind]
  rw [reads, mirrors.bound]
  unfold Grammar.implDeclaration
  dsimp only
  refine follows_ran rfl rfl (follows_test (fun _ => follows_error meets.orderly.calm) fun inner => ?_)
  have top : state.draft.atTopLevel = true := by simpa using inner
  refine follows_bind ((follows_implHeader meets.orderly).mono ?_)
  rintro _ ⟨traitName, typeName⟩ first ⟨front, trait, struct, rfl, isTrait, isStruct⟩
  refine follows_expect front.orderly fun _ second _ opened => ?_
  refine follows_idle opened.comes.orderly fun _ third _ _ typed => ?_
  have front := (front.trans opened.comes).trans typed
  have isStruct := (opened.comes.trans typed).adds.grows.findStruct isStruct
  have outer : third.draft.atTopLevel = true := by
    rw [front.adds.grows.draft.atTopLevel, top]
  let inv : List Text → List (Text × Routine) → State → Prop := fun _ methods middle =>
    Fulfils trait.name struct typeName.text methods third middle
  have begins : inv [] [] third :=
    ⟨front.orderly.unchanged.declares, .refl third, .refl, fun _ _ _ _ _ => trivial⟩
  refine follows_seq inv (follows_iterate inv (fun provided methods middle sofar => ?_) grammar.bound
    [] [] begins) fun provided methods fourth sofar => ?_
  · have fulfils : Fulfils trait.name struct typeName.text methods third middle := sofar
    refine follows_check (follows_atEnd (follows_ite .rfl (fun _ => follows_pure ⟨rfl, fulfils⟩)
      fun _ => ?_))
    refine follows_bind ((follows_implMethod behaves mirrors (front.meets meets) outer
      (resting.grown front.adds.grows) provided fulfils).mono ?_)
    exact fun _ method last more => follows_pure ⟨rfl, more⟩
  · have fulfils : Fulfils trait.name struct typeName.text methods third fourth := sofar
    refine follows_expect fulfils.declares.orderly fun _ fifth _ closed => ?_
    refine follows_idle closed.comes.orderly fun _ sixth _ _ typed => ?_
    have sofar := fulfils.idle (closed.comes.trans typed)
    refine follows_last sofar.declares.orderly.calm
      ((does_stageImpl rfl rfl provided sofar.declares.orderly).mono fun _ last holds rests => ?_)
    refine ⟨_, _, _, rfl, top, (front.toStays.trans sofar.stays).trans rests.toStays, struct,
      (sofar.declares.trans holds.1).grows.findStruct isStruct, ?_⟩
    rw [← isTrait]
    exact sofar.provides.grown holds.1.grows

omit declarations in
/-- An impl that has been declared has no code. -/
theorem Endows.lays {trait name : Text} {methods : List (Text × Routine)}
    (endows : Endows trait name methods state last) (adds : Adds 0 state last [])
    (changes : Changes state last) : Lays (Statement.impl trait name methods).Codes state last := by
  refine ⟨endows.stays.nesting, changes, 0, [], adds, fun context foretells => ⟨rfl, rfl, ?_, ?_⟩⟩
  · rw [foretells.topLevel, adds.grows.draft.atTopLevel, endows.top]
  · obtain ⟨id, isStruct, provides⟩ := endows.found
    have registered := foretells.structs name id isStruct
    obtain ⟨type, isType, isName⟩ := struct?_of_registered registered
    exact ⟨id, type, registered, isType, provides context type foretells isType isName⟩

end Methods

section Yielding

variable {α β γ : Type} {state : State}

/-- All that is read has some property. -/
def Yields (reading : Reading β) (property : β → Prop) : Prop :=
  ∀ tokens read rest, reading tokens = some (read, rest) → property read

theorem yields_pure {read : β} {property : β → Prop} (holds : property read) :
    Yields (pure read) property := by
  rintro tokens _ _ ⟨⟩
  exact holds

theorem yields_bind {reading : Reading β} {behind : β → Reading γ} {property : γ → Prop}
    (yields : ∀ value, Yields (behind value) property) : Yields (reading >>= behind) property := by
  intro tokens read rest ran
  obtain ⟨⟨value, middle⟩, -, ran⟩ := Option.bind_eq_some_iff.mp ran
  exact yields value middle read rest ran

theorem yields_ite {test : Prop} [Decidable test] {yes no : Reading β} {property : β → Prop}
    (whenTrue : Yields yes property) (whenFalse : Yields no property) :
    Yields (if test then yes else no) property := by
  split
  · exact whenTrue
  · exact whenFalse

theorem Follows.yields {action : Compile α} {reading : Reading β} {done : α → β → State → Prop}
    {property : β → Prop} (follows : Follows action reading state done)
    (yields : Yields reading property) :
    Follows action reading state fun result read last => done result read last ∧ property read :=
  Does.mono follows fun _ _ ⟨read, ran, holds⟩ => ⟨read, ran, holds, yields _ _ _ ran⟩

/-- What declares no struct makes none known. -/
def Silent (tree : Statement) : Prop :=
  ∀ known, tree.announces known = known

theorem silent_varDeclaration (nested : Productions) : Yields nested.varDeclaration Silent :=
  yields_bind fun _ => yields_bind fun _ => yields_ite
    (yields_bind fun _ => yields_bind fun _ => yields_pure fun _ => rfl)
    (yields_bind fun _ => yields_pure fun _ => rfl)

theorem silent_expressionStatement (nested : Productions) :
    Yields nested.expressionStatement Silent :=
  yields_bind fun _ => yields_bind fun _ => yields_pure fun _ => rfl

theorem silent_forLoop (nested : Productions) (first : Statement) :
    Yields (nested.forLoop first) Silent :=
  yields_bind fun _ => yields_bind fun _ => yields_bind fun _ => yields_pure fun _ => rfl

theorem silent_fnDeclaration (nested : Productions) : Yields nested.fnDeclaration Silent :=
  yields_bind fun _ => yields_bind fun _ => yields_pure fun _ => rfl

theorem silent_statement (nested : Productions) : Yields nested.readStatement Silent := by
  have prints : Yields nested.printStatement Silent :=
    yields_bind fun _ => yields_bind fun _ => yields_pure fun _ => rfl
  have chooses : Yields nested.ifStatement Silent :=
    yields_bind fun _ => yields_bind fun _ => yields_bind fun _ => yields_bind fun _ =>
      yields_bind fun _ => yields_ite (yields_bind fun _ => yields_pure fun _ => rfl)
        (yields_pure fun _ => rfl)
  have loops : Yields nested.whileStatement Silent :=
    yields_bind fun _ => yields_bind fun _ => yields_bind fun _ => yields_bind fun _ =>
      yields_pure fun _ => rfl
  have fors : Yields nested.forStatement Silent :=
    yields_bind fun _ => yields_bind fun _ => yields_ite (silent_forLoop nested _)
      (yields_bind fun _ => yields_ite (yields_bind fun _ => silent_forLoop nested _)
        (yields_bind fun _ => silent_forLoop nested _))
  have returns : Yields nested.returnStatement Silent :=
    yields_bind fun _ => yields_ite (yields_pure fun _ => rfl)
      (yields_bind fun _ => yields_bind fun _ => yields_pure fun _ => rfl)
  exact yields_bind fun _ => yields_ite prints (yields_bind fun _ => yields_ite chooses
    (yields_bind fun _ => yields_ite loops (yields_bind fun _ => yields_ite fors
      (yields_bind fun _ => yields_ite returns (yields_bind fun _ => yields_ite
        (yields_bind fun _ => yields_pure fun _ => rfl) (silent_expressionStatement nested))))))

end Yielding

section Productions

variable {grammar : Grammar} {nested : Productions} {state last : State}

/-- In a quiet compilation there is nothing to recover from. -/
theorem follows_recovering {β : Type} {production : Compile Unit} {reading : Reading β}
    {done : Unit → β → State → Prop} [keeps : Keeps (Changes state) production] (bound : Nat)
    (calm : Calm state) (follows : Follows production reading state done) :
    Follows (do
      production
      if (← get).panicking then
        synchronize bound) reading state done := by
  refine does_bind ((Does.and follows does_changes).mono ?_)
  rintro _ middle ⟨holds, changes⟩
  refine does_ran rfl (does_ite (fun panicking result last ran quiet => ?_) fun _ => does_pure holds)
  have before : Quiet middle := quiet_of_changes (changes_of_ran ran) quiet
  exact absurd before ((calm_of_changes changes calm).1 panicking)

/-- A declaration has been compiled as it has been read. -/
structure Declared (tree : Statement) (before after : State) : Prop where
  lays : Lays tree.Codes before after
  knows : after.knows = tree.announces before.knows
  inner : before.draft.atTopLevel = false → after.knows = before.knows

theorem Lays.declared {tree : Statement} (lays : Lays tree.Codes state last)
    (silent : Silent tree) (knows : last.knows = state.knows) : Declared tree state last :=
  ⟨lays, knows.trans (silent _).symm, fun _ => knows⟩

theorem Declared.behind {tree : Statement} {first : State} (comes : Comes first state [])
    (declared : Declared tree state last) : Declared tree first last where
  lays := declared.lays.behind comes
  knows := by rw [declared.knows, comes.toStays.knows]
  inner isInner := by
    rw [declared.inner (by rw [comes.adds.grows.draft.atTopLevel, isInner]), comes.toStays.knows]

theorem Founds.declared {name : Text} {fields : List Text} (founds : Founds name fields state last)
    (adds : Adds 0 state last []) (changes : Changes state last) :
    Declared (.struct name fields) state last := by
  refine ⟨founds.lays adds changes, funext fun other => ?_, fun inner => ?_⟩
  · have known : (last.findStruct other).isSome = true
        ↔ (state.findStruct other).isSome = true ∨ name = other :=
      iff_of_eq (congrFun founds.known other)
    refine Bool.eq_iff_iff.mpr (known.trans ?_)
    simp only [Statement.announces, Bool.or_eq_true, beq_iff_eq, State.knows]
    exact or_congr_right eq_comm
  · rw [founds.top] at inner
    cases inner

/-- What declares no local is laid out wherever it stands. -/
theorem Builds.laid {laying : Laying} (builds : Builds (laying · []) state last) :
    Lays laying state last := by
  obtain ⟨code, comes, means⟩ := builds
  exact ⟨comes.nesting, comes.changes, 0, code, comes.adds, means⟩

theorem Stays.declaredTrait (stays : Stays state last) (name : Text) (adds : Adds 0 state last [])
    (changes : Changes state last) : Declared (.trait name) state last :=
  Lays.declared ⟨stays.nesting, changes, 0, [], adds, fun _ _ => ⟨rfl, rfl⟩⟩ (fun _ => rfl) stays.knows

theorem Endows.declared {trait name : Text} {methods : List (Text × Routine)}
    (endows : Endows trait name methods state last) (adds : Adds 0 state last [])
    (changes : Changes state last) : Declared (.impl trait name methods) state last :=
  (endows.lays adds changes).declared (fun _ => rfl) endows.stays.knows

/-- The compiler looks one token ahead of the current one. -/
theorem atFunction_eq (calm : Calm state) :
    Reading.atFunction state.pending
      = some ((state.pending.head?.any fun token => token.kind == .fnWord) &&
          state.cursor.next.kind == .identifier, state.pending) := by
  cases waiting : state.pending with
  | nil => rfl
  | cons first others =>
    rw [calm.2.next waiting]
    cases others with
    | nil => exact congrArg (fun ahead => some (ahead, [first])) (Bool.and_false _).symm
    | cons second others => rfl

variable [operands : ∀ origin level, Keeps (Changes origin) (grammar.operand level)]
  [statements : ∀ origin, Keeps (Changes origin) grammar.statement]
  [declarations : ∀ origin, Keeps (Changes origin) grammar.declaration]

theorem follows_parseDeclaration (behaves : grammar.Behaves) (mirrors : Mirrors grammar nested)
    (meets : Meets nested state) (resting : AtStatement state) (inside : state.pending ≠ []) :
    Follows grammar.parseDeclaration nested.readDeclaration state fun _ tree last =>
      Declared tree state last := by
  have behind : ∀ {production : Compile Unit} {reading : Reading Statement} {token : Token}
      {middle : State} [∀ origin, Keeps (Changes origin) production], Passed token state middle →
      (Meets nested middle → AtStatement middle → Follows production reading middle
        fun _ tree last => Declared tree middle last) →
      Follows (do
        production
        if (← get).panicking then
          synchronize grammar.bound) reading middle fun _ tree last => Declared tree state last := by
    intro production reading token middle _ passed follows
    refine (follows_recovering grammar.bound passed.comes.orderly.calm
      (follows (passed.meets meets) (resting.grown passed.comes.adds.grows))).mono ?_
    exact fun _ _ _ declared => declared.behind passed.comes
  unfold Grammar.parseDeclaration Productions.readDeclaration
  dsimp only
  refine follows_accept meets.orderly (fun _ _ _ passed => behind passed fun meets _ => ?_) fun _ => ?_
  · refine Does.mono (((follows_structDeclaration mirrors.bound meets.orderly).and
      (does_structDeclaration meets.orderly)).and does_changes) ?_
    rintro _ last ⟨⟨⟨_, ran, name, fields, rfl, founds⟩, adds⟩, changes⟩
    exact ⟨_, ran, founds.declared adds changes⟩
  refine follows_accept meets.orderly (fun _ _ _ passed => behind passed fun meets _ => ?_) fun _ => ?_
  · refine Does.mono (((follows_traitDeclaration mirrors.bound meets.orderly).and
      (does_traitDeclaration meets.orderly)).and does_changes) ?_
    rintro _ last ⟨⟨⟨_, ran, ⟨name, rfl⟩, stays⟩, adds⟩, changes⟩
    exact ⟨_, ran, stays.declaredTrait name adds changes⟩
  refine follows_accept meets.orderly (fun _ _ _ passed => behind passed fun meets resting => ?_)
    fun _ => ?_
  · refine Does.mono (((follows_implDeclaration behaves mirrors meets resting).and
      (does_implDeclaration behaves meets.orderly resting)).and does_changes) ?_
    rintro _ last ⟨⟨⟨_, ran, trait, name, methods, rfl, endows⟩, adds⟩, changes⟩
    exact ⟨_, ran, endows.declared adds changes⟩
  refine follows_ran check_eq rfl (follows_ran rfl rfl
    (follows_read (atFunction_eq meets.orderly.calm) (follows_ite .rfl (fun isFn => ?_) fun _ => ?_)))
  · obtain ⟨token, others, waiting⟩ := List.exists_cons_of_ne_nil inside
    refine follows_bind ((follows_pass meets.orderly waiting).mono ?_)
    rintro _ _ middle ⟨rfl, passed⟩
    refine behind passed fun meets resting => ?_
    exact ((follows_fnDeclaration behaves mirrors meets resting).yields
      (silent_fnDeclaration nested)).mono fun _ tree last ⟨⟨lays, knows⟩, silent⟩ =>
        lays.declared silent knows
  refine follows_accept meets.orderly (fun _ _ _ passed => behind passed fun meets resting => ?_)
    fun _ => ?_
  · exact ((follows_varDeclaration mirrors meets resting).yields
      (silent_varDeclaration nested)).mono fun _ tree last ⟨⟨lays, knows, _⟩, silent⟩ =>
        lays.declared silent knows
  · refine follows_recovering grammar.bound meets.orderly.calm ?_
    refine ((follows_parseStatement mirrors meets resting fun empty => absurd empty inside).yields
      (silent_statement nested)).mono fun _ tree last ⟨built, silent⟩ => ?_
    exact built.laid.declared silent built.stays.knows

end Productions

end ScriptMachine.Compiler
