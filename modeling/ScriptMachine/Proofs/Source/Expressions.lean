import ScriptMachine.Proofs.Source.Routines

set_option autoImplicit false
set_option synthInstance.maxSize 20000

/- The code of an expression is that of the tree that is read. -/
namespace ScriptMachine.Compiler

open Source (Reading Locals Scope Context Place Productions Form Laying Expression codesAll
  codesFields builds closes)

section Parts

variable {origin state later last : State} {form : Form} {code : List Instruction}

/-- An instruction that has not been needed. -/
theorem Orderly.spared (orderly : Orderly state) (op : Opcode) :
    Builds (.perhaps op) state state :=
  orderly.comes.builds fun _ _ => Or.inl rfl

theorem Comes.needed {op : Opcode} (comes : Comes state later [⟨op, 0, 0⟩]) :
    Builds (.perhaps op) state later :=
  comes.builds fun _ _ => Or.inr rfl

theorem Filed.names {op : Opcode} {index : Nat} {text : Text} (filed : Filed later index text)
    (comes : Comes state later [⟨op, index, 0⟩]) : Builds (.naming op text) state later :=
  comes.builds fun _ foretells => ⟨index, filed.foretold foretells, rfl⟩

/-- A variable is read from the place that its name stands for. -/
theorem Locates.reads {name : Text} {place : Place} (locates : Locates later name place)
    (comes : Comes state later [place.read]) : Builds (Expression.variable name).Codes state later :=
  comes.builds fun context foretells => ⟨place, locates context foretells, rfl⟩

/-- A variable is assigned to in the place that its name stands for. -/
theorem Locates.writes {name : Text} {place : Place} {value : Expression} {middle : State}
    (locates : Locates last name place) (worth : Builds value.Codes state middle)
    (copied : Builds (.perhaps .copyStruct) middle later) (comes : Comes later last [place.write]) :
    Builds (Expression.assign name value).Codes state last :=
  worth.andThen (copied.andThen (comes.builds fun context foretells =>
    ⟨place, locates context foretells, rfl⟩))

end Parts

section Productions

variable {grammar : Grammar} {nested : Productions} {origin state : State}
  [operands : ∀ origin level, Keeps (Changes origin) (grammar.operand level)]
  [declarations : ∀ origin, Keeps (Changes origin) grammar.declaration]

omit declarations in
theorem follows_arguments (mirrors : Mirrors grammar nested) (meets : Meets nested state)
    (expecting : Expecting state) :
    Follows grammar.arguments nested.arguments state fun count arguments last =>
      count = arguments.length ∧ Builds (codesAll arguments) state last := by
  let done : Nat → List Expression → State → Prop := fun count found middle =>
    count = found.length ∧ count ≤ maxArguments ∧ Builds (codesAll found) state middle
  let inv : Nat → List Expression → State → Prop := fun count found middle =>
    done count found middle ∧ Expecting middle
  have ends : ∀ count found middle, done count found middle → Follows (do
      let _ ← expect .rightParen "')' after arguments"
      return min count maxArguments) (do
      let _ ← Reading.expect .rightParen
      return found) middle fun count arguments last =>
        count = arguments.length ∧ Builds (codesAll arguments) state last := by
    rintro count found middle ⟨same, few, built⟩
    refine follows_expect built.orderly fun _ last _ passed => follows_pure ?_
    rw [Nat.min_eq_left few]
    exact ⟨same, built.before passed.comes⟩
  unfold Grammar.arguments Productions.arguments
  rw [mirrors.bound]
  dsimp only
  have start : done 0 [] state := ⟨rfl, Nat.zero_le _, meets.orderly.builds⟩
  refine follows_check (follows_ite .rfl (fun _ => ?_) fun _ => ends 0 [] state start)
  refine follows_seq done (follows_iterate inv (fun count found round holds => ?_) grammar.bound 0
    [] ⟨start, expecting⟩) ends
  obtain ⟨⟨same, few, built⟩, expecting⟩ := holds
  refine follows_expression mirrors (built.meets meets) expecting fun _ tree second argument => ?_
  refine follows_test (fun _ => follows_error argument.orderly.calm) fun limit => ?_
  have inside : ∀ last, Builds (codesAll (found ++ [tree])) state last →
      done (count + 1) (found ++ [tree]) last := by
    intro last built
    have apart : count ≠ maxArguments := by simpa using limit
    exact ⟨by simp [same], by omega, built⟩
  have whole : Builds (codesAll (found ++ [tree])) state second := by
    rw [Source.codesAll_concat]
    exact built.andThen argument
  refine follows_accept argument.orderly (fun token last isComma passed => ?_) fun _ => ?_
  · exact follows_pure ⟨rfl, inside last (whole.before passed.comes), passed.expecting isComma rfl⟩
  · exact follows_pure ⟨rfl, inside second whole⟩

omit declarations in
theorem follows_localVariable (mirrors : Mirrors grammar nested) (meets : Meets nested state)
    {name : Text} {slot : Nat} (canAssign : Bool) (locates : Locates state name (.slot slot)) :
    Follows (grammar.localVariable slot canAssign) (nested.namedVariable name canAssign) state
      fun _ tree last => Builds tree.Codes state last := by
  have shapes : ∀ (value : Shape) (inv : State → Prop) [Indifferent inv], Keeps inv
      (modifyDraft fun draft => draft.modifyLocal slot fun found =>
        let always := found.branch == draft.branchDepth && !found.captured
        { found with shape := if always then value.stored else found.shape.merge value.stored }) :=
    fun value inv _ => keeps_alike fun draft => draft.alike_modify _ fun found => rfl
  unfold Grammar.localVariable Productions.namedVariable
  dsimp only
  refine follows_acceptIf meets.orderly (fun token first _ same passed => ?_) ?_
  · refine follows_expression mirrors (passed.meets meets) (passed.expecting same rfl)
      fun value tree second worth => ?_
    have stores : ∀ middle, Builds (.perhaps .copyStruct) second middle → Follows (do
        modifyDraft fun draft => draft.modifyLocal slot fun found =>
          let always := found.branch == draft.branchDepth && !found.captured
          { found with shape := if always then value.stored else found.shape.merge value.stored }
        emitOperand .setLocal slot
        return value.stored) (pure (Expression.assign name tree)) middle fun _ tree last =>
          Builds tree.Codes state last := by
      intro middle copied
      refine follows_idle copied.orderly fun _ third _ _ shaped => ?_
      refine follows_emit shaped.orderly fun last _ written => follows_pure ?_
      have copied := copied.before shaped
      have grows := ((passed.comes.adds.grows.trans worth.grows).trans copied.grows).trans
        written.adds.grows
      exact (locates.grown grows).writes (worth.behind passed.comes) copied written
    refine follows_test (fun _ => ?_) fun _ => stores second (worth.orderly.spared _)
    exact follows_emit worth.orderly fun middle _ copied => stores middle copied.needed
  · refine follows_emit meets.orderly fun last _ written => follows_ran rfl rfl (follows_pure ?_)
    exact (locates.grown written.adds.grows).reads written

omit declarations in
theorem follows_upvalueVariable (mirrors : Mirrors grammar nested) (meets : Meets nested state)
    {name : Text} {index : Nat} (canAssign : Bool)
    (locates : Locates state name (.upvalue index)) :
    Follows (grammar.upvalueVariable index canAssign) (nested.namedVariable name canAssign) state
      fun _ tree last => Builds tree.Codes state last := by
  unfold Grammar.upvalueVariable Productions.namedVariable
  refine follows_acceptIf meets.orderly (fun token first _ same passed => ?_) ?_
  · refine follows_expression mirrors (passed.meets meets) (passed.expecting same rfl)
      fun value tree second worth => ?_
    refine follows_emit worth.orderly fun last _ written => follows_pure ?_
    have grows := (passed.comes.adds.grows.trans worth.grows).trans written.adds.grows
    exact (locates.grown grows).writes (worth.behind passed.comes) (worth.orderly.spared _) written
  · refine follows_emit meets.orderly fun last _ written => follows_pure ?_
    exact (locates.grown written.adds.grows).reads written

omit declarations in
theorem follows_globalVariable (mirrors : Mirrors grammar nested) (meets : Meets nested state)
    (name : Token) (canAssign : Bool) (named : name.text ≠ [])
    (unknown : ∀ context, Foretells context state → Source.slotOf context.locals name.text = none ∧
      ∀ scope ∈ context.around, Source.slotOf scope.locals name.text = none) :
    Follows (grammar.globalVariable name canAssign) (nested.namedVariable name.text canAssign)
      state fun _ tree last => Builds tree.Codes state last := by
  have reads := changes_readGlobal name.text
  have notes : ∀ (origin : State) (value : Shape), Keeps (Idle origin) (modify fun state : State =>
      { state with
        globals := state.globals.insert name.text
          ⟨((state.globals[name.text]?.map Global.shape).getD {}).merge value.stored, true⟩ } :
      Compile Unit) :=
    fun _ _ => keeps_idle fun _ => ⟨rfl, rfl, rfl, rfl, .rfl, ⟨rfl, rfl, rfl, rfl, rfl, rfl⟩⟩
  have denoted : ∀ (index : Nat) later, Filed later index name.text → Grows 0 state later →
      Locates later name.text (.global index) := by
    intro index later filed grows context foretells
    obtain ⟨here, around⟩ := unknown context (foretells.same grows)
    exact ⟨named, here, around, filed.foretold foretells⟩
  unfold Grammar.globalVariable Productions.namedVariable
  dsimp only
  refine follows_text meets.orderly fun index first _ front filed => ?_
  refine follows_acceptIf front.orderly (fun token second _ same passed => ?_) ?_
  · have comes := front.trans passed.comes
    refine follows_expression mirrors (comes.meets meets) (passed.expecting same rfl)
      fun value tree third worth => ?_
    refine follows_test (fun _ => follows_errorAt worth.orderly.calm) fun _ => ?_
    refine follows_idle worth.orderly fun _ fourth _ _ noted => ?_
    refine follows_emit noted.orderly fun last _ written => follows_pure ?_
    have grows := ((passed.comes.adds.grows.trans worth.grows).trans noted.adds.grows).trans
      written.adds.grows
    have locates := denoted index last (filed.grown grows) (front.adds.grows.trans grows)
    have whole := (worth.behind comes).before noted
    exact locates.writes whole (whole.orderly.spared _) written
  · refine follows_emit front.orderly fun last _ written => follows_ran rfl rfl ?_
    have comes := front.trans written
    have locates := denoted index last (filed.grown written.adds.grows) comes.adds.grows
    split <;> exact follows_pure (locates.reads comes)

omit declarations in
theorem follows_namedVariable (mirrors : Mirrors grammar nested) (meets : Meets nested state)
    (name : Token) (canAssign : Bool) (named : name.text ≠ []) :
    Follows (grammar.namedVariable name canAssign) (nested.namedVariable name.text canAssign)
      state fun _ tree last => Builds tree.Codes state last := by
  have captures := @changes_outerVariable grammar _ name canAssign
  unfold Grammar.namedVariable
  refine follows_stillThen (fun found origin => ?_) meets.orderly.calm
    ((does_findsLocal meets.orderly named).mono ?_)
  · split <;> infer_instance
  rintro found _ ⟨rfl, locates⟩ _
  cases found with
  | some slot => exact follows_localVariable mirrors meets canAssign locates
  | none =>
    refine follows_stillThen (fun index origin => captures origin index) meets.orderly.calm
      ((does_findsUpvalue meets.orderly named locates).mono ?_)
    rintro found last ⟨comes, facts⟩ _
    cases found with
    | some index =>
      exact (follows_upvalueVariable mirrors (comes.meets meets) canAssign facts).mono
        fun _ _ _ built => built.behind comes
    | none =>
      exact (follows_globalVariable mirrors (comes.meets meets) name canAssign named facts).mono
        fun _ _ _ built => built.behind comes

end Productions

section Literals

variable {grammar : Grammar} {nested : Productions} {origin state : State}
  [operands : ∀ origin level, Keeps (Changes origin) (grammar.operand level)]
  [declarations : ∀ origin, Keeps (Changes origin) grammar.declaration]

omit declarations in
theorem follows_initialiser (mirrors : Mirrors grammar nested) (meets : Meets nested state)
    (type : StructType) (onHeap : Bool) (layout : List Nat) :
    Follows (grammar.initialiser type onHeap layout) nested.initialiser state
      fun result read last => ∃ slot, type.findField read.1 = some slot ∧ slot ∉ layout ∧
        result = slot :: layout ∧
        Builds (read.2.Codes.andThen (.perhaps .promote)) state last := by
  unfold Grammar.initialiser Productions.initialiser
  refine follows_andThen (fun field origin => ?_) ((follows_word meets.orderly).mono ?_)
  · dsimp only
    cases type.findField field.text <;> infer_instance
  rintro _ field first ⟨rfl, -, passed⟩
  dsimp only
  cases found : type.findField field.text with
  | none => exact follows_errorAt passed.comes.orderly.calm
  | some slot =>
    refine follows_test (fun _ => follows_errorAt passed.comes.orderly.calm) fun new => ?_
    refine follows_expect passed.comes.orderly fun _ second same passed' => ?_
    refine follows_expression mirrors (passed'.meets (passed.meets meets))
      (passed'.expecting same rfl) fun value tree third worth => ?_
    have worth := worth.behind (passed.comes.trans passed'.comes)
    have filled : ∀ last, Builds (.perhaps .promote) third last →
        Follows (pure (if layout.contains slot = true then layout else slot :: layout))
          (pure (field.text, tree)) last fun result read last =>
            ∃ slot, type.findField read.1 = some slot ∧ slot ∉ layout ∧ result = slot :: layout ∧
              Builds (read.2.Codes.andThen (.perhaps .promote)) state last := by
      intro last promoted
      rw [if_neg new]
      exact follows_pure ⟨slot, found, by simpa using new, rfl, worth.andThen promoted⟩
    refine follows_test (fun _ => ?_) fun _ => filled third (worth.orderly.spared _)
    exact follows_emit worth.orderly fun last _ written => filled last written.needed

/-- The fields of a literal have their values, each in a slot of its own. -/
def Laid (type : StructType) (layout : List Nat) (found : List (Text × Expression)) : Prop :=
  (found.map fun field => type.findField field.1) = layout.reverse.map some ∧ layout.Nodup

omit operands declarations in
/-- The instruction behind the values of the fields of a literal. -/
theorem follows_build {type : StructType} {id : StructId} {struct : Text} {onHeap : Bool}
    {layout : List Nat} {found : List (Text × Expression)} {shape : Shape} (orderly : Orderly state)
    (isStruct : state.findStruct struct = some id) (known : state.struct? id = some type)
    (laid : Laid type layout found) :
    Follows (do
      let index := (← draft).body.layouts.size
      modifyBody fun body => { body with layouts := body.layouts.push layout.reverse }
      emitWith (if onHeap then .heapStruct else .stackStruct) id index
      return shape) (pure (Expression.literal onHeap struct (found.map Prod.fst)
        (found.map Prod.snd))) state fun _ tree last =>
          tree = .literal onHeap struct (found.map Prod.fst) (found.map Prod.snd) ∧
            Builds (builds onHeap struct (found.map Prod.fst)) state last := by
  have lays : ∀ origin, Keeps (Changes origin)
      (modifyBody fun body => { body with layouts := body.layouts.push layout.reverse }) :=
    fun _ => keeps_body fun _ => ⟨rfl, rfl⟩
  have adds := orderly.laid layout.reverse
  refine follows_ran rfl rfl (follows_still orderly.calm (does_modify fun pushed => ?_))
  refine follows_emit adds.orderly fun last _ written => follows_pure ⟨rfl, ?_⟩
  have comes := (pushed.comes adds).trans written
  refine comes.builds fun context foretells => ?_
  obtain ⟨fields, distinct⟩ := laid
  obtain ⟨real, isReal, same⟩ := foretells.sees.knows id type (comes.adds.grows.structs id type known)
  refine ⟨id, real, state.draft.body.layouts.size, layout.reverse,
    foretells.structs struct id (comes.adds.grows.findStruct isStruct), isReal, ?_,
    List.nodup_reverse.mpr distinct, ?_, rfl⟩
  · rw [← fields, List.map_map]
    exact List.map_congr_left fun field _ => by
      rw [Function.comp, StructType.findField, StructType.findField, same]
  · refine getElem?_of_prefix (written.adds.grows.draft.layouts.trans foretells.sees.layouts) ?_
    exact Array.getElem?_push_size

omit declarations in
theorem follows_literal (mirrors : Mirrors grammar nested) (meets : Meets nested state)
    {id : StructId} {struct : Text} (onHeap : Bool) (isStruct : state.findStruct struct = some id) :
    Follows (grammar.structLiteral id onHeap) (nested.literal struct onHeap) state
      fun _ tree last => Builds tree.Codes state last := by
  have lays : ∀ origin (slots : List Nat), Keeps (Changes origin)
      (modifyBody fun body => { body with layouts := body.layouts.push slots }) :=
    fun _ _ => keeps_body fun _ => ⟨rfl, rfl⟩
  obtain ⟨type, known⟩ := State.struct?_of_findStruct isStruct
  let inv : List Nat → List (Text × Expression) → State → Prop := fun layout found middle =>
    Laid type layout found ∧ Builds (codesFields (found.map Prod.snd)) state middle
  have ends : ∀ layout found middle, inv layout found middle → Follows (do
      let _ ← expect .rightBrace "'\x7d' after struct literal fields"
      let index := (← draft).body.layouts.size
      modifyBody fun body => { body with layouts := body.layouts.push layout.reverse }
      emitWith (if onHeap then .heapStruct else .stackStruct) id index
      return ({
        placement := if onHeap then .heap else .stack
        fresh := !onHeap
        holdsLiteral := !onHeap
        struct := some id } : Shape)) (do
      let _ ← Reading.expect .rightBrace
      return Expression.literal onHeap struct (found.map Prod.fst) (found.map Prod.snd)) middle
        fun _ tree last => Builds tree.Codes state last := by
    rintro layout found middle ⟨laid, built⟩
    refine follows_expect built.orderly fun _ closed _ passed => ?_
    have front := built.before passed.comes
    refine (follows_build passed.comes.orderly (front.grows.findStruct isStruct)
      (front.grows.structs id type known) laid).mono ?_
    rintro _ _ last ⟨rfl, builds⟩
    exact front.andThen builds
  unfold Grammar.structLiteral Productions.literal
  rw [mirrors.bound]
  dsimp only
  refine follows_ran rfl rfl ?_
  rw [known, Option.getD_some]
  refine follows_expect meets.orderly fun _ first _ passed => ?_
  have start : inv [] [] first :=
    ⟨⟨rfl, List.nodup_nil⟩, (passed.comes.orderly.builds).behind passed.comes⟩
  refine follows_check (follows_ite .rfl (fun _ => ?_) fun _ => ends [] [] first start)
  refine follows_seq inv (follows_iterate inv (fun layout found round holds => ?_) grammar.bound []
    [] start) ends
  obtain ⟨⟨fields, distinct⟩, built⟩ := holds
  refine follows_check (follows_ite .rfl (fun _ => ?_) fun _ => ?_)
  · exact follows_pure ⟨rfl, ⟨fields, distinct⟩, built⟩
  refine follows_bind ((follows_initialiser mirrors (built.meets meets) type onHeap layout).mono ?_)
  rintro _ field last ⟨slot, isSlot, new, rfl, worth⟩
  have laid : Laid type (slot :: layout) (found ++ [field]) :=
    ⟨by simp [fields, isSlot], List.nodup_cons.mpr ⟨new, distinct⟩⟩
  have whole : Builds (codesFields ((found ++ [field]).map Prod.snd)) state last := by
    rw [List.map_append, List.map_cons, List.map_nil, Source.codesFields_concat]
    exact built.andThen worth
  refine follows_accept whole.orderly (fun _ comma _ passed => ?_) fun _ => ?_
  · exact follows_pure ⟨rfl, laid, whole.before passed.comes⟩
  · exact follows_pure ⟨rfl, laid, whole⟩

omit declarations in
theorem follows_identifier (mirrors : Mirrors grammar nested) (meets : Meets nested state)
    (canAssign : Bool) (isWord : state.cursor.previous.kind = .identifier) :
    Follows (grammar.identifier canAssign)
      (nested.identifier state.cursor.previous.text canAssign) state fun _ tree last =>
        Builds tree.Codes state last := by
  unfold Grammar.identifier Productions.identifier
  refine follows_ran rfl rfl (follows_check (follows_ran rfl rfl ?_))
  rw [← meets.knows, State.knows]
  generalize (state.pending.head?.any fun token => token.kind == .leftBrace) = braced
  have named := follows_namedVariable mirrors meets state.cursor.previous canAssign
    (Cursor.worded_previous meets.worded isWord)
  cases braced with
  | false => exact named
  | true =>
    cases found : state.findStruct state.cursor.previous.text with
    | none => exact named
    | some id => exact follows_literal mirrors meets false found

omit declarations in
theorem follows_receiver (mirrors : Mirrors grammar nested) (meets : Meets nested state) :
    Follows grammar.receiver (pure (Expression.variable (ascii "self"))) state fun _ tree last =>
      Builds tree.Codes state last := by
  have named : ascii "self" ≠ [] := by decide
  unfold Grammar.receiver
  refine follows_ran rfl rfl ?_
  refine follows_test (fun _ => follows_error meets.orderly.calm) fun _ => follows_ran rfl rfl ?_
  have found := follows_namedVariable mirrors meets
    { state.cursor.previous with kind := .selfWord, text := ascii "self" } false named
  change Follows _ (nested.namedVariable (ascii "self") false >>= pure) state _
  refine follows_bind (found.mono fun _ tree last built => ?_)
  exact follows_ran rfl rfl (follows_pure built)

omit declarations in
theorem follows_heapStruct (mirrors : Mirrors grammar nested) (meets : Meets nested state) :
    Follows grammar.heapStruct (do
      let name ← Reading.expect .identifier
      nested.literal name.text true) state fun _ tree last => Builds tree.Codes state last := by
  unfold Grammar.heapStruct
  refine follows_andThen (fun name origin => ?_) ((follows_word meets.orderly).mono ?_)
  · refine Keeps.andThen inferInstance fun state => ?_
    split <;> infer_instance
  rintro _ name first ⟨rfl, -, passed⟩
  refine follows_ran rfl rfl ?_
  cases found : first.findStruct name.text with
  | some id =>
    exact (follows_literal mirrors (passed.meets meets) true found).mono
      fun _ _ _ built => built.behind passed.comes
  | none => exact follows_errorAt passed.comes.orderly.calm

omit operands declarations in
/-- A closure is made of a function that has just been compiled. -/
theorem follows_closure {γ δ : Type} {function : Context → Prototype → Prop} {before : State}
    {id : ObjectId} {body : Prototype} {rest : Unit → Compile γ} {reading : Reading δ}
    {done : γ → δ → State → Prop}
    [keeps : ∀ value origin, Keeps (Changes origin) (rest value)]
    (makes : Makes function before state id body) (worded : before.cursor.Worded)
    (next : ∀ last, Rests state last → Builds (closes function) state last →
      Follows (rest ()) reading last done) :
    Follows (makeConstant (.ref id) >>= fun index => emitOperand .closure index >>= rest) reading
      state done := by
  have adds := makes.returns.written
  have calm := makes.comes.orderly.calm
  have calmFiled : Calm (state.filed id) := calm
  refine follows_still calm (does_fileFunction makes.returns fun filed => ?_)
  refine follows_still calmFiled (does_emitWith fun written => ?_)
  have remains : Remains state
      ((state.filed id).written ⟨.closure, state.draft.body.constants.size, 0⟩) :=
    ⟨filed.toRests.trans written.toRests, filed.changes.trans written.changes⟩
  refine next _ remains.toRests ((remains.comes adds).builds fun context foretells => ?_)
  have here : ((state.filed id).written ⟨.closure, state.draft.body.constants.size, 0⟩
      ).draft.body.constants[state.draft.body.constants.size]? = some (.ref id) :=
    Array.getElem?_push_size
  have reached : ∀ other, Heap.Reaches state.heap.objects [id] other →
      context.heap.get? other = state.heap.get? other := by
    intro other isReached
    refine foretells.sees.heap other (isReached.mono fun root member => .root ?_)
    rw [List.mem_singleton.mp member]
    exact Prototype.mem_references here
  refine ⟨state.draft.body.constants.size, id, body,
    getElem?_of_prefix foretells.sees.constants here, ?_, ?_, ?_, rfl⟩
  · rw [reached id (.root List.mem_cons_self), makes.returns.finished.1]
  · exact makes.spells context (foretells.same adds.grows).allows reached
  · obtain ⟨inner, rfl, captures⟩ := makes.returns.captures
    intro capture member isLocal
    have captured := captures capture member
    rw [if_pos isLocal] at captured
    obtain ⟨found, here, isCaptured, named⟩ := captured
    exact ⟨found.name, named ((worded_of_changes makes.comes.changes).mpr worded),
      (foretells.same adds.grows).captured here isCaptured⟩

omit operands in
theorem follows_functionLiteral (behaves : grammar.Behaves) (mirrors : Mirrors grammar nested)
    (meets : Meets nested state) :
    Follows grammar.functionLiteral (do
      let routine ← nested.routine
      return Expression.function routine) state fun _ tree last =>
        Builds tree.Codes state last := by
  unfold Grammar.functionLiteral
  refine follows_bind ((follows_routine behaves mirrors _ (by simp) meets).mono ?_)
  rintro ⟨id, arity⟩ routine first ⟨body, -, -, makes⟩
  refine follows_closure makes meets.worded fun last _ built => follows_pure ?_
  exact built.behind makes.comes

theorem follows_opening (behaves : grammar.Behaves) (mirrors : Mirrors grammar nested)
    (meets : Meets nested state) (canAssign : Bool) (opening : Opening) {token : Token}
    (isToken : state.cursor.previous = token) (expecting : isComplete token.kind = false → Expecting state)
    (isOpening : Opening.of? token.kind = some opening) :
    Follows (grammar.opening canAssign opening) (nested.opening canAssign token opening) state
      fun _ tree last => Builds tree.Codes state last := by
  unfold Grammar.opening Productions.opening
  subst isToken
  cases opening with
  | grouping =>
    have expecting : Expecting state := expecting (by
      generalize state.cursor.previous.kind = kind at isOpening
      cases kind <;> first | rfl | cases isOpening)
    refine follows_expression mirrors meets expecting fun _ tree first built => ?_
    refine follows_expect built.orderly fun _ last _ passed => follows_pure ?_
    exact built.before passed.comes
  | unary =>
    have expecting : Expecting state := expecting (by
      generalize state.cursor.previous.kind = kind at isOpening
      cases kind <;> first | rfl | cases isOpening)
    refine follows_ran rfl rfl ?_
    refine follows_operand mirrors meets expecting (by decide) fun _ tree first built => ?_
    refine follows_emit built.orderly fun last _ written => ?_
    split
    · next isBang =>
      rw [if_pos isBang] at written
      exact follows_pure (built.andThen (written.builds fun _ _ => rfl))
    · next isMinus =>
      rw [if_neg isMinus] at written
      exact follows_pure (built.andThen (written.builds fun _ _ => rfl))
  | «variable» =>
    refine follows_identifier mirrors meets canAssign ?_
    generalize state.cursor.previous.kind = kind at isOpening
    cases kind <;> first | rfl | cases isOpening
  | string =>
    refine follows_ran rfl rfl (follows_text meets.orderly fun index first _ front filed => ?_)
    refine follows_emit front.orderly fun last _ written => follows_pure ?_
    exact ((filed.grown written.adds.grows).names written).behind front
  | number =>
    refine follows_ran rfl rfl (follows_still meets.orderly.calm (does_makeConstant meets.orderly
      (by rintro _ ⟨⟩) fun index first adds _ here remains => ?_))
    refine follows_emit adds.orderly fun last _ written => follows_pure ?_
    have comes := (remains.comes adds).trans written
    refine comes.builds fun context foretells => ⟨index, ?_, rfl⟩
    have constants := written.adds.grows.draft.constants.trans foretells.sees.constants
    exact getElem?_of_prefix constants here
  | literal =>
    refine follows_ran rfl rfl ?_
    dsimp only
    generalize state.cursor.previous.kind = kind at isOpening
    cases kind <;> cases isOpening
    all_goals exact follows_emit meets.orderly fun last _ written =>
      follows_pure (written.builds fun _ _ => rfl)
  | receiver => exact follows_receiver mirrors meets
  | heapStruct => exact follows_heapStruct mirrors meets
  | function => exact follows_functionLiteral behaves mirrors meets

end Literals

section Operators

variable {grammar : Grammar} {nested : Productions} {origin state : State} {left : Expression}
  [operands : ∀ origin level, Keeps (Changes origin) (grammar.operand level)]

/-- The right operand of `and` or `or` is skipped by a jump behind it. -/
theorem follows_shortCircuit (mirrors : Mirrors grammar nested) (meets : Meets nested state)
    (expecting : Expecting state) (shape : Shape) {skip : Opcode} {level : Level}
    (tight : level.rank ≤ Level.unary.rank) (other : skip ≠ .closure)
    {whole : Expression → Expression} :
    Follows (grammar.shortCircuit shape skip level) (do
      let right ← nested.operand level
      return whole right) state fun _ tree last => ∃ right, tree = whole right ∧
        Builds (.skipped skip right.Codes) state last := by
  change Follows (do
    let exit ← emitJump skip
    emit .pop
    beginBranch
    let right ← grammar.operand level
    endBranch
    patchJump exit
    return shape.merge right) _ state _
  refine follows_still meets.orderly.calm (does_emitJump meets.orderly fun first jump jumped => ?_)
  refine follows_emit jump.orderly fun second popped pop => ?_
  refine follows_idle pop.orderly fun _ third _ rested opened => ?_
  have front := ((jumped.comes jump).trans pop).trans opened
  refine follows_operand mirrors (front.meets meets)
    (((jumped.toRests.trans popped).trans rested).expecting expecting) tight
    fun _ tree fourth built => ?_
  obtain ⟨code, comes, means⟩ := built
  refine follows_idle comes.orderly fun _ fifth _ _ closed => ?_
  have behind := front.trans (comes.trans closed)
  have written : Adds 0 state fifth ([] ++ ⟨skip, -1, 0⟩ :: ⟨.pop, 0, 0⟩ :: code) := by
    simpa using behind.adds
  refine follows_still behind.orderly.calm
    (does_patchJump written rfl other fun last grows patched remains => follows_pure ?_)
  refine ⟨tree, rfl, _, ⟨behind.toStays.trans remains.toStays, patched,
    behind.changes.trans remains.changes⟩, fun context foretells => ⟨code, ?_, ?_⟩⟩
  · have before := means context (closed.foretells (foretells.same grows))
    rwa [front.adds.size] at before
  · rw [written.size, List.nil_append, List.nil_append, List.length_cons, List.length_cons,
      Nat.add_assoc, Nat.add_comm code.length, ← Nat.add_assoc]

/-- A call of what has been read so far. -/
theorem follows_applied (mirrors : Mirrors grammar nested) (meets : Meets nested state)
    (expecting : Expecting state) (callee : Shape) (built : Builds left.Codes origin state) :
    Follows (grammar.call callee) (do
      let arguments ← nested.arguments
      return Expression.call left arguments) state fun _ tree last =>
        Builds tree.Codes origin last := by
  have calls : ∀ (arguments : List Expression) middle, Builds (codesAll arguments) state middle →
      Follows (do
        emitOperand .call arguments.length
        return Shape.anything) (pure (Expression.call left arguments)) middle fun _ tree last =>
          Builds tree.Codes origin last := by
    intro arguments middle given
    refine follows_emit given.orderly fun last _ written => follows_pure ?_
    exact built.andThen (given.andThen (written.builds fun _ _ => rfl))
  unfold Grammar.call
  dsimp only
  cases callee.arity with
  | none =>
    refine follows_bind ((follows_arguments mirrors meets expecting).mono ?_)
    rintro _ arguments middle ⟨rfl, given⟩
    exact calls arguments middle given
  | some arity =>
    refine follows_bind ((follows_arguments mirrors meets expecting).mono ?_)
    rintro _ arguments middle ⟨rfl, given⟩
    exact follows_test (fun _ => follows_error given.orderly.calm) fun _ =>
      calls arguments middle given

/-- A property of what has been read so far. -/
theorem follows_dotted (mirrors : Mirrors grammar nested) (meets : Meets nested state)
    (target : Shape) (canAssign : Bool) (built : Builds left.Codes origin state) :
    Follows (grammar.property target canAssign) (nested.property left canAssign) state
      fun _ tree last => Builds tree.Codes origin last := by
  unfold Grammar.property Productions.property
  refine follows_expect meets.orderly fun name first _ passed => ?_
  refine follows_text passed.comes.orderly fun index second rested filed here => ?_
  have front := passed.comes.trans filed
  refine follows_acceptIf filed.orderly (fun _ third _ same passed' => ?_) ?_
  · refine follows_expression mirrors (passed'.meets (front.meets meets))
      (passed'.expecting same rfl) fun value tree fourth worth => ?_
    have stores : ∀ (shape : Shape) middle, Builds (.perhaps .promote) fourth middle → Follows (do
        emitOperand .setProperty index
        return shape) (pure (Expression.setProperty left name.text tree)) middle fun _ tree last =>
          Builds tree.Codes origin last := by
      intro shape middle promoted
      refine follows_emit promoted.orderly fun last _ written => follows_pure ?_
      have here := here.grown (((passed'.comes.adds.grows.trans worth.grows).trans
        promoted.grows).trans written.adds.grows)
      exact built.andThen ((worth.behind (front.trans passed'.comes)).andThen
        (promoted.andThen (here.names written)))
    refine follows_test (fun _ => ?_) fun _ => stores _ fourth (worth.orderly.spared _)
    exact follows_emit worth.orderly fun middle _ written => stores _ middle written.needed
  · refine follows_accept filed.orderly (fun _ third same passed' => ?_) fun _ => ?_
    · refine follows_bind ((follows_arguments mirrors (passed'.meets (front.meets meets))
        (passed'.expecting same rfl)).mono ?_)
      rintro _ arguments fourth ⟨rfl, given⟩
      refine follows_idle given.orderly fun _ fifth _ _ checked => ?_
      refine follows_emit checked.orderly fun last _ written => follows_pure ?_
      have here := here.grown (((passed'.comes.adds.grows.trans given.grows).trans
        checked.adds.grows).trans written.adds.grows)
      refine built.andThen (((given.behind (front.trans passed'.comes)).before checked).andThen ?_)
      exact written.builds fun _ foretells => ⟨index, here.foretold foretells, rfl⟩
    · refine follows_emit filed.orderly fun last _ written => follows_pure ?_
      exact built.andThen (((here.grown written.adds.grows).names written).behind front)

omit operands in
/-- What a binary operator is written as. -/
theorem operator?_of {kind : TokenKind} {level : Level}
    (isBinary : Continuation.of? kind = some (.binary, level)) :
    ∃ operator, Source.operator? kind = some operator ∧ binaryCode kind = operator.code := by
  cases kind <;> cases isBinary <;> exact ⟨_, rfl, rfl⟩

omit operands in
theorem does_emits (list : List Opcode) (orderly : Orderly state) :
    Does (forIn list PUnit.unit fun op _ => do
      emit op
      pure (ForInStep.yield PUnit.unit) : Compile PUnit) state fun _ last =>
        Builds (.ops list) state last := by
  let inv : List Opcode → State → Prop := fun left middle =>
    ∃ written, list = written ++ left ∧ Builds (.ops written) state middle
  have loop : Does (forIn list PUnit.unit fun op _ => do
      emit op
      pure (ForInStep.yield PUnit.unit) : Compile PUnit) state fun _ => inv [] := by
    refine does_for (fun item left middle holds => ?_) list ⟨[], rfl, orderly.comes.builds fun _ _ => rfl⟩
    obtain ⟨written, rfl, built⟩ := holds
    refine (does_writes built.orderly).mono fun _ last comes => ⟨written ++ [item], by simp, ?_⟩
    refine (built.andThen (comes.builds fun _ _ => rfl : Builds (.ops [item]) middle last)).mono ?_
    rintro _ _ _ ⟨_, _, rfl, rfl, rfl⟩
    exact (List.map_append ..).symm
  refine loop.mono fun _ last holds => ?_
  obtain ⟨written, rfl, built⟩ := holds
  rwa [List.append_nil]

/-- What follows an operand, behind the token that continues it. -/
theorem follows_continuation (mirrors : Mirrors grammar nested) (meets : Meets nested state)
    (expecting : Expecting state) (shape : Shape) (canAssign : Bool) {level : Level} {token : Token}
    (continuation : Continuation) (isToken : state.cursor.previous = token)
    (isContinuation : Continuation.of? token.kind = some (continuation, level))
    (built : Builds left.Codes origin state) :
    Follows (grammar.continuation shape canAssign level continuation)
      (nested.continuation left canAssign level token continuation) state fun _ tree last =>
        Builds tree.Codes origin last := by
  subst isToken
  unfold Grammar.continuation Productions.continuation
  cases continuation with
  | call => exact follows_applied mirrors meets expecting shape built
  | property => exact follows_dotted mirrors meets shape canAssign built
  | binary =>
    have tight : level.tighter.rank ≤ Level.unary.rank := by
      generalize state.cursor.previous.kind = kind at isContinuation
      cases kind <;> cases isContinuation <;> decide
    obtain ⟨operator, isOperator, code⟩ := operator?_of isContinuation
    refine follows_ran rfl rfl ?_
    dsimp only
    rw [isOperator, code]
    refine follows_operand mirrors meets expecting tight fun _ right first worth => ?_
    refine follows_still worth.orderly.calm ((does_emits _ worth.orderly).mono
      fun _ last written _ => follows_pure ?_)
    exact built.andThen (worth.andThen written)
  | and =>
    refine (follows_shortCircuit mirrors meets expecting shape (by decide) (by simp)).mono ?_
    rintro _ _ last ⟨right, rfl, skipped⟩
    exact built.andThen skipped
  | or =>
    refine (follows_shortCircuit mirrors meets expecting shape (by decide) (by simp)).mono ?_
    rintro _ _ last ⟨right, rfl, skipped⟩
    exact built.andThen skipped

end Operators

section Operands

variable {grammar : Grammar} {nested : Productions} {origin state : State}
  [operands : ∀ origin level, Keeps (Changes origin) (grammar.operand level)]
  [declarations : ∀ origin, Keeps (Changes origin) grammar.declaration]

omit declarations in
/-- One more operator, if it binds tightly enough. -/
theorem follows_continued (mirrors : Mirrors grammar nested) (meets : Meets nested state)
    {level : Level} {left : Expression} (shape : Shape) (built : Builds left.Codes origin state) :
    Follows (do
      match Continuation.of? (← here).kind with
      | none => return (shape, false)
      | some (continuation, strength) =>
        if level.rank ≤ strength.rank then
          advance
          return (← grammar.continuation shape (level.rank ≤ Level.assignment.rank) strength
            continuation, true)
        else
          return (shape, false)) (nested.continued level left) state fun result read last =>
            read.2 = result.2 ∧ Builds read.1.Codes origin last := by
  unfold Productions.continued
  refine follows_ran rfl rfl (follows_read rfl ?_)
  cases waiting : state.pending with
  | nil =>
    rw [Cursor.here_of_nothing waiting]
    exact follows_pure ⟨rfl, built⟩
  | cons token others =>
    rw [(Cursor.here_of_pending waiting).1]
    dsimp only [List.head?_cons, Option.bind_some]
    cases found : Continuation.of? token.kind with
    | none => exact follows_pure ⟨rfl, built⟩
    | some pair =>
      obtain ⟨continuation, strength⟩ := pair
      refine follows_ite .rfl (fun _ => ?_) fun _ => follows_pure ⟨rfl, built⟩
      refine follows_bind ((follows_pass meets.orderly waiting).mono ?_)
      rintro _ _ passing ⟨rfl, passed⟩
      have expecting := passed.expecting rfl (incomplete_of_continuation found)
      refine follows_bind ((follows_continuation mirrors (passed.meets meets) expecting shape _
        continuation passed.previous found (built.before passed.comes)).mono ?_)
      exact fun _ tree last whole => follows_pure ⟨rfl, whole⟩

theorem follows_parseOperand (behaves : grammar.Behaves) (recognises : grammar.Recognises)
    (mirrors : Mirrors grammar nested) (meets : Meets nested state) (expecting : Expecting state)
    {level : Level} (low : level.rank ≤ Level.unary.rank) :
    Follows (grammar.parseOperand level) (nested.readOperand level) state fun _ tree last =>
      Builds tree.Codes state last := by
  cases waiting : state.pending with
  | nil =>
    refine (does_of_parses meets.orderly.calm fun ready =>
      reads_parseOperand recognises ready expecting low).mono fun _ _ holds => ?_
    exact absurd waiting holds.1.operand_waits
  | cons token others =>
    unfold Grammar.parseOperand Productions.readOperand
    refine follows_andThen (fun _ origin => ?_) ((follows_pass meets.orderly waiting).mono ?_)
    · refine Keeps.andThen inferInstance fun token => ?_
      split
      · infer_instance
      · dsimp only
        infer_instance
    rintro _ token first ⟨rfl, passed⟩
    refine follows_ran rfl rfl ?_
    rw [passed.previous]
    cases found : Opening.of? token.kind with
    | none => exact follows_error passed.comes.orderly.calm
    | some opening =>
      dsimp only
      refine follows_bind ((follows_opening behaves mirrors (passed.meets meets) _ opening
        passed.previous (passed.expecting rfl) found).mono ?_)
      intro shape tree second built
      let inv : Shape → Expression → State → Prop := fun _ tree middle =>
        Builds tree.Codes state middle
      rw [mirrors.bound]
      refine follows_seq inv (follows_iterate inv (fun shape tree round holds => ?_) grammar.bound
        shape tree (built.behind passed.comes)) fun shape tree middle holds => ?_
      · have built : Builds tree.Codes state round := holds
        refine (follows_continued mirrors (built.meets meets) shape built).mono ?_
        rintro ⟨_, more⟩ ⟨_, _⟩ last ⟨rfl, whole⟩
        exact ⟨rfl, by split <;> exact whole⟩
      · have built : Builds tree.Codes state middle := holds
        refine follows_acceptIf built.orderly (fun _ last _ _ passed => ?_) (follows_pure built)
        exact follows_error passed.comes.orderly.calm

end Operands

end ScriptMachine.Compiler
