import ScriptMachine.Proofs.Source.Expressions

set_option autoImplicit false
set_option synthInstance.maxSize 20000

/- The code of a statement is that of the tree that is read, and so is that of a declared variable. -/
namespace ScriptMachine.Compiler

open Source (Reading Locals Scope Context Place Productions Form Laying Expression Statement)

section Scopes

variable {state later last : State} {laying : Laying} {form : Form} {name : Text}

/-- A statement declares nothing. -/
theorem Builds.plain (builds : Builds form state last) :
    Builds (Laying.plain form · []) state last :=
  builds.mono fun _ _ _ holds => ⟨rfl, holds⟩

/-- What is foretold behind a block tells what is foretold at its end. -/
theorem Closes.foretells {added : Nat} {code : List Instruction} {middle : State} {context : Context}
    (closes : Closes added state later middle code) (adds : Adds added state.opened later code)
    (foretells : Foretells context (middle.dropped added)) :
    Foretells { context.nested with
      locals := ((later.draft.locals.take added).map fun found => (found.name, found.captured))
        ++ context.locals } later := by
  let declared : Locals :=
    (later.draft.locals.take added).map fun found => (found.name, found.captured)
  have visible := closes.visible adds.grows
  have inner : Foretells { context with locals := declared ++ context.locals } middle :=
    { sees :=
        { heap := foretells.sees.heap
          constants := foretells.sees.constants
          captures := foretells.sees.captures
          layouts := foretells.sees.layouts
          knows := foretells.sees.knows
          flags := by
            rw [visible, List.map_append]
            refine List.rel_append ?_ foretells.sees.flags
            simp only [declared, List.map_map]
            exact List.forall₂_map_left_iff.mpr
              (List.forall₂_same.mpr fun _ _ captured => captured) }
      names := by
        rw [visible, List.map_append, List.map_append, foretells.names]
        simp [declared, Function.comp_def]
      around := foretells.around
      structs := foretells.structs
      methods := foretells.methods
      kept := foretells.kept
      topLevel := foretells.topLevel }
  have early := inner.same closes.leaves.grows
  refine ⟨⟨early.sees.heap, early.sees.constants, early.sees.captures, early.sees.layouts,
    early.sees.knows, early.sees.flags⟩, early.names, early.around, early.structs, early.methods,
    early.kept, ?_⟩
  rw [adds.grows.draft.atTopLevel]
  simp [Context.nested, State.opened, State.withDraft, Draft.atTopLevel]

/-- What has been laid in a block is enclosed in it. -/
theorem follows_endScope {δ : Type} {read : δ} {done : Unit → δ → State → Prop}
    (start : Orderly state) (resting : AtStatement state) (lays : Lays laying state.opened later)
    (knows : later.knows = state.knows)
    (ends : ∀ last, Builds (.enclosed laying) state last → done () read last) :
    Follows endScope (pure read) later done := by
  have rests : Does endScope later fun _ last =>
      last.pending = later.pending ∧ last.known = later.known :=
    (does_of_parses lays.orderly.calm parses_endScope).mono fun _ _ enters =>
      ⟨by rw [State.pending, enters.cursor, State.pending], enters.known⟩
  have opens : Changes state state.opened :=
    changes_of_ran (rfl : beginScope state = .ok () state.opened)
  have known : later.known = state.known := by
    funext name
    exact congrArg (· = true) (congrFun knows name)
  obtain ⟨-, changes, added, code, adds, means⟩ := lays
  refine (((does_closeScope start resting adds).and rests).and does_changes).mono ?_
  rintro _ _ ⟨⟨⟨middle, closes, rfl⟩, pending, still⟩, left⟩
  refine ⟨read, by rw [pending]; rfl, ends _ ⟨_, ⟨⟨closes.adds.grows.nesting, still.trans known⟩,
    closes.adds, (opens.trans changes).trans left⟩, fun context foretells => ?_⟩⟩
  let declared : Locals :=
    (later.draft.locals.take added).map fun found => (found.name, found.captured)
  have length : declared.length = added := by
    rw [List.length_map, List.length_take, Nat.min_eq_left adds.grows.draft.count]
  have inside := means _ (closes.foretells adds foretells)
  simp only at inside
  rw [List.drop_left' length, List.take_left' length] at inside
  exact ⟨declared, code, inside, by simp [declared, Function.comp_def]⟩

/-- A local that has got its value has been laid. -/
theorem Builds.marked (builds : Builds form (state.declared name) later)
    (deep : 0 < state.draft.scopeDepth) (changes : Changes state later.marked) :
    Lays (fun context declared start code =>
      (∃ flag, declared = [(name, flag)]) ∧ form context start code) state later.marked := by
  obtain ⟨code, comes, means⟩ := builds
  have adds := comes.adds
  have marked : Adds 1 state later.marked code :=
    ⟨adds.orderly.marked adds.grows deep, adds.grows.marked,
      ⟨adds.stages.words, adds.stages.nested, adds.stages.tabled⟩, adds.code⟩
  refine ⟨comes.nesting, changes, 1, code, marked, fun context foretells => ?_⟩
  obtain ⟨newest, named, visible⟩ := visible_marked adds.grows
  have names := foretells.names
  have flags := foretells.sees.flags
  rw [visible] at names flags
  obtain ⟨setting, locals, around, topLevel⟩ := context
  cases locals with
  | nil => cases names
  | cons found older =>
    obtain ⟨isName, names⟩ := List.cons.inj names
    cases flags with
    | cons _ flags =>
      refine ⟨⟨found.2, ?_⟩, means _ ⟨⟨foretells.sees.heap, foretells.sees.constants,
        foretells.sees.captures, foretells.sees.layouts, foretells.sees.knows, flags⟩, names,
        foretells.around, foretells.structs, foretells.methods, foretells.kept,
        foretells.topLevel⟩⟩
      rw [List.take_succ_cons, List.take_zero, ← named, ← isName]

/-- At the top level a global is defined by the value that has been left for it. -/
theorem Builds.defines {value : Locals → Form}
    (builds : Builds ((value []).andThen (.naming .defineGlobal name)) state last)
    (top : last.draft.atTopLevel = true) : Lays (.defines name value) state last := by
  obtain ⟨code, comes, means⟩ := builds
  refine ⟨comes.nesting, comes.changes, 0, code, comes.adds, fun context foretells => ?_⟩
  rw [Laying.defines, if_pos (foretells.topLevel.trans top)]
  exact ⟨rfl, means context foretells⟩

/-- Elsewhere a local has the value that has been left for it. -/
theorem Lays.defines {value : Locals → Form}
    (lays : Lays (fun context declared start code =>
      (∃ flag, declared = [(name, flag)]) ∧ value declared context start code) state last)
    (inner : last.draft.atTopLevel = false) : Lays (.defines name value) state last := by
  obtain ⟨nesting, changes, added, code, adds, means⟩ := lays
  refine ⟨nesting, changes, added, code, adds, fun context foretells => ?_⟩
  have nested : context.topLevel = false := foretells.topLevel.trans inner
  rw [Laying.defines, if_neg (by simp [nested])]
  exact means context foretells

theorem follows_defineGlobal {δ : Type} {read : δ} {done : Unit → δ → State → Prop}
    (value : Locals → Form) (shape : Shape) (built : Builds (value []) state later)
    (top : later.draft.atTopLevel = true)
    (ends : ∀ last, Rests later last → Lays (.defines name value) state last →
      last.knows = state.knows → done () read last) :
    Follows (do
      modify fun state => { state with globals := state.globals.insert name ⟨shape, false⟩ }
      emitOperand .defineGlobal (← textConstant name) : Compile Unit) (pure read) later done := by
  refine follows_idle built.orderly fun _ first _ rested noted => ?_
  refine follows_text noted.orderly fun index second named front filed => ?_
  refine follows_emitLast front.orderly fun last ended written => ?_
  have comes := (noted.trans front).trans written
  have names := ((filed.grown written.adds.grows).names written).behind (noted.trans front)
  have whole := built.andThen names
  refine ends last ((rested.trans named).trans ended) (whole.defines ?_) whole.stays.knows
  rw [comes.adds.grows.draft.atTopLevel, top]

end Scopes

section Simple

variable {grammar : Grammar} {nested : Productions} {state : State}

theorem follows_expressionStatement (mirrors : Mirrors grammar nested) (meets : Meets nested state)
    (expecting : Expecting state) :
    Follows grammar.expressionStatement nested.expressionStatement state fun _ tree last =>
      Builds (tree.Codes · []) state last ∧ Lays tree.Codes state last ∧ Expecting last := by
  unfold Grammar.expressionStatement Productions.expressionStatement
  refine follows_expression mirrors meets expecting fun _ tree first built => ?_
  refine follows_expect built.orderly fun _ second same passed => ?_
  refine follows_emitLast passed.comes.orderly fun last rested written => ?_
  have whole : Builds (tree.Codes.andThen (.ops [.pop])) state last :=
    built.andThen ((written.builds fun _ _ => rfl).behind passed.comes)
  exact ⟨whole.plain, whole.lays, rested.expecting (passed.expecting same rfl)⟩

theorem follows_printStatement (mirrors : Mirrors grammar nested) (meets : Meets nested state)
    (expecting : Expecting state) :
    Follows grammar.printStatement nested.printStatement state fun _ tree last =>
      Builds (tree.Codes · []) state last := by
  unfold Grammar.printStatement Productions.printStatement
  refine follows_expression mirrors meets expecting fun _ tree first built => ?_
  refine follows_expect built.orderly fun _ second _ passed => ?_
  refine follows_emitLast passed.comes.orderly fun last _ written => ?_
  exact (built.andThen ((written.builds fun _ _ => rfl).behind passed.comes)).plain

variable [operands : ∀ origin level, Keeps (Changes origin) (grammar.operand level)]

theorem follows_returnStatement (mirrors : Mirrors grammar nested) (meets : Meets nested state)
    (expecting : Expecting state) :
    Follows grammar.returnStatement nested.returnStatement state fun _ tree last =>
      Builds (tree.Codes · []) state last := by
  have rejects := changes_returnedStruct
  unfold Grammar.returnStatement Productions.returnStatement
  dsimp only at rejects ⊢
  refine follows_ran rfl rfl (follows_ran rfl rfl ?_)
  refine follows_test (fun _ => follows_error meets.orderly.calm) fun _ => ?_
  refine follows_accept meets.orderly (fun _ first _ passed => ?_) fun _ => ?_
  · unfold emitReturnNil
    refine follows_emit passed.comes.orderly fun second _ written => ?_
    refine follows_emitLast written.orderly fun last _ returned => ?_
    have worth : Builds Expression.nil.Codes first second := written.builds fun _ _ => rfl
    exact ((worth.behind passed.comes).andThen (returned.builds fun _ _ => rfl)).plain
  · refine follows_expression mirrors meets expecting fun value tree first worth => ?_
    refine follows_test (fun _ => ?_) fun _ => ?_
    · cases value.struct with
      | none => exact follows_ran rfl rfl (follows_errorAt worth.orderly.calm)
      | some id => exact follows_idle worth.orderly fun _ _ _ _ named =>
          follows_errorAt named.orderly.calm
    · refine follows_expect worth.orderly fun _ second _ passed => ?_
      refine follows_emitLast passed.comes.orderly fun last _ returned => ?_
      exact ((worth.before passed.comes).andThen (returned.builds fun _ _ => rfl)).plain

omit operands in
theorem Meets.opened (meets : Meets nested state) : Meets nested state.opened :=
  ⟨meets.orderly.opened, meets.knows,
    capturesOnce_of_changes (changes_of_ran (rfl : beginScope state = .ok () state.opened))
      meets.once, meets.worded⟩

omit operands in
theorem Meets.declared (meets : Meets nested state) (resting : AtStatement state) (name : Text) :
    Meets nested (state.declared name) :=
  ⟨meets.orderly.declared resting, meets.knows,
    List.forall_mem_cons.mpr (List.forall_mem_cons.mp meets.once), meets.worded⟩

theorem follows_varDeclaration (mirrors : Mirrors grammar nested) (meets : Meets nested state)
    (resting : AtStatement state) :
    Follows grammar.varDeclaration nested.varDeclaration state fun _ tree last =>
      Lays tree.Codes state last ∧ last.knows = state.knows ∧ Expecting last := by
  unfold Grammar.varDeclaration Productions.varDeclaration
  dsimp only
  refine follows_expect meets.orderly fun name first _ passed => follows_ran rfl rfl ?_
  have front := passed.comes
  have resting := resting.grown front.adds.grows
  cases top : first.draft.atTopLevel with
  | true =>
    simp only [Bool.not_true, if_true, if_false, Bool.false_eq_true]
    have defines : ∀ (shape : Shape) (tree : Expression) middle, Builds tree.Codes first middle →
        Follows (do
          let _ ← expect .semicolon "';' after variable declaration"
          if shape.escapes then
            errorAt name (.structInGlobal name.text)
          modify fun state =>
            { state with globals := state.globals.insert name.text ⟨shape.stored, false⟩ }
          emitOperand .defineGlobal (← textConstant name.text))
          (Productions.variableEnd name.text tree) middle fun _ tree last =>
            Lays tree.Codes state last ∧ last.knows = state.knows ∧ Expecting last := by
      intro shape tree middle worth
      unfold Productions.variableEnd
      dsimp only
      refine follows_expect worth.orderly fun _ second same passed => ?_
      refine follows_test (fun _ => follows_errorAt passed.comes.orderly.calm) fun _ => ?_
      have worth := (worth.behind front).before passed.comes
      have copied := worth.andThen (worth.orderly.spared .copyStruct)
      have still : second.draft.atTopLevel = true := by
        rw [worth.grows.draft.atTopLevel, ← front.adds.grows.draft.atTopLevel, top]
      exact follows_defineGlobal (fun _ => tree.Codes.andThen (.perhaps .copyStruct)) _ copied still
        fun last rested lays knows => ⟨lays, knows, rested.expecting (passed.expecting same rfl)⟩
    refine follows_accept front.orderly (fun _ second same passed => ?_) fun _ => ?_
    · refine follows_expression mirrors (passed.meets (front.meets meets)) (passed.expecting same rfl)
        fun shape tree third worth => ?_
      exact defines shape tree third (worth.behind passed.comes)
    · refine follows_emit front.orderly fun second _ written => ?_
      exact defines {} .nil second (written.builds fun _ _ => rfl)
  | false =>
    simp only [Bool.not_false, if_true, if_false, Bool.false_eq_true]
    have deep := resting.deep top
    have declared := (front.meets meets).declared resting name.text
    have calm : Calm (first.declared name.text) := declared.orderly.calm
    refine follows_still front.orderly.calm (does_declareLocal front.orderly.calm fun declares => ?_)
    have initializes : ∀ (shape : Shape) (tree : Expression) middle,
        Builds tree.Codes (first.declared name.text) middle → Follows (do
          let _ ← expect .semicolon "';' after variable declaration"
          if shape.needsCopy then
            emit .copyStruct
          markInitialized
          shapeNewest shape.stored) (Productions.variableEnd name.text tree) middle
            fun _ tree last => Lays tree.Codes state last ∧ last.knows = state.knows ∧ Expecting last := by
      intro shape tree middle worth
      unfold Productions.variableEnd
      dsimp only
      refine follows_expect worth.orderly fun _ second same passed => ?_
      have worth := worth.before passed.comes
      have marks : ∀ third, Rests second third → Builds (.perhaps .copyStruct) second third →
          Follows (do
          markInitialized
          shapeNewest shape.stored) (pure (Statement.var name.text tree)) third
            fun _ tree last => Lays tree.Codes state last ∧ last.knows = state.knows ∧ Expecting last := by
        intro third rested copied
        have whole := worth.andThen copied
        have depth : 0 < third.draft.scopeDepth := by
          rw [whole.grows.draft.scopeDepth]
          exact deep
        refine follows_still whole.orderly.calm (does_markInitialized depth fun marked => ?_)
        have lays := whole.marked deep ((declares.changes.trans whole.changes).trans marked.changes)
        refine follows_last lays.orderly.calm (does_idle lays.orderly fun _ last idle shaped => ?_)
        have comes := shaped.comes idle
        have inner : last.draft.atTopLevel = false := by
          rw [(lays.before comes).atTopLevel, top]
        refine ⟨((lays.before comes).behind front).defines inner, ?_, ?_⟩
        · rw [comes.toStays.knows, ← front.toStays.knows]
          exact whole.stays.knows
        · exact ((rested.trans marked.toRests).trans shaped.toRests).expecting
            (passed.expecting same rfl)
      refine follows_test (fun _ => ?_) fun _ =>
        marks second (.refl second) (worth.orderly.spared _)
      exact follows_emit worth.orderly fun third rested written =>
        marks third rested written.needed
    refine follows_accept declared.orderly (fun _ second same passed => ?_) fun _ => ?_
    · refine follows_expression mirrors (passed.meets declared) (passed.expecting same rfl)
        fun shape tree third worth => ?_
      exact initializes shape tree third (worth.behind passed.comes)
    · refine follows_emit declared.orderly fun second _ written => ?_
      exact initializes {} .nil second (written.builds fun _ _ => rfl)

end Simple

section Jumping

variable {grammar : Grammar} {nested : Productions} {state : State}
  [operands : ∀ origin level, Keeps (Changes origin) (grammar.operand level)]
  [statements : ∀ origin, Keeps (Changes origin) grammar.statement]

theorem follows_ifStatement (mirrors : Mirrors grammar nested) (meets : Meets nested state)
    (resting : AtStatement state) :
    Follows grammar.ifStatement nested.ifStatement state fun _ tree last =>
      Builds (tree.Codes · []) state last := by
  unfold Grammar.ifStatement Productions.ifStatement
  dsimp only
  refine follows_expect meets.orderly fun _ first same passed => ?_
  refine follows_expression mirrors (passed.meets meets) (passed.expecting same rfl)
    fun _ condition second tested => ?_
  refine follows_expect tested.orderly fun _ start same passed' => ?_
  have tested := (tested.behind passed.comes).before passed'.comes
  have expecting := passed'.expecting same rfl
  refine follows_still tested.orderly.calm (does_emitJump tested.orderly fun third skip skipped => ?_)
  refine follows_emit skip.orderly fun fourth popped pop => ?_
  refine follows_idle pop.orderly fun _ fifth _ rested opened => ?_
  have front := ((skipped.comes skip).trans pop).trans opened
  have inside := (tested.resting resting).grown front.adds.grows
  refine follows_inner mirrors (front.meets (tested.meets meets)) inside
    (((skipped.toRests.trans popped).trans rested).expecting expecting) fun yes sixth first => ?_
  obtain ⟨yesCode, yesComes, yesMeans⟩ := first
  refine follows_still yesComes.orderly.calm
    (does_emitJump yesComes.orderly fun seventh leave left => ?_)
  have leaves := left.comes leave
  have branch : Adds 0 start seventh
      ([] ++ ⟨.jumpIfFalse, -1, 0⟩ :: (⟨.pop, 0, 0⟩ :: (yesCode ++ [⟨.jump, -1, 0⟩]))) := by
    simpa using ((front.trans yesComes).trans leaves).adds
  refine follows_still leaves.orderly.calm
    (does_patchJump branch rfl (by simp) fun eighth grown patched remains => ?_)
  refine follows_emit patched.orderly fun ninth _ pop => ?_
  have stays := (front.trans yesComes).trans leaves
  have between : Comes start ninth _ :=
    Comes.trans ⟨stays.toStays.trans remains.toStays, patched, stays.changes.trans remains.changes⟩ pop
  have sizeYes : sixth.draft.body.code.size = start.draft.body.code.size + 2 + yesCode.length := by
    rw [yesComes.adds.size, front.adds.size]
    rfl
  have sizeNinth : ninth.draft.body.code.size
      = start.draft.body.code.size + 2 + yesCode.length + 2 := by
    rw [between.adds.size]
    simp only [List.length_append, List.length_cons, List.length_nil]
    omega
  have ends : ∀ (no : Statement) twelfth, Builds (no.Codes · []) ninth twelfth → Follows (do
      endBranch
      patchJump sixth.draft.body.code.size) (pure (Statement.choose condition yes no)) twelfth
        fun _ tree last => Builds (tree.Codes · []) state last := by
    intro no twelfth second
    obtain ⟨noCode, noComes, noMeans⟩ := second
    refine follows_idle noComes.orderly fun _ closing _ _ closed => ?_
    have behind := (between.trans noComes).trans closed
    have whole : Adds 0 start closing
        ((⟨.jumpIfFalse, seventh.draft.body.code.size, 0⟩ :: ⟨.pop, 0, 0⟩ :: yesCode)
          ++ ⟨.jump, -1, 0⟩ :: (⟨.pop, 0, 0⟩ :: noCode)) := by
      simpa using behind.adds
    refine follows_last behind.orderly.calm
      (does_patchJump whole ?_ (by simp) fun last grows written remains => ?_)
    · rw [sizeYes]
      simp only [List.length_cons]
      omega
    have sizeSeventh : seventh.draft.body.code.size
        = start.draft.body.code.size + 2 + yesCode.length + 1 := by
      rw [leave.size, sizeYes]
      rfl
    have sizeClosing : closing.draft.body.code.size
        = start.draft.body.code.size + 2 + yesCode.length + 2 + noCode.length := by
      rw [whole.size]
      simp only [List.length_append, List.length_cons]
      omega
    rw [sizeSeventh, sizeClosing] at written
    have comes : Comes start last _ := ⟨behind.toStays.trans remains.toStays, written,
      behind.changes.trans remains.changes⟩
    refine (tested.andThen (comes.builds fun context foretells =>
      ⟨yesCode, noCode, ?_, ?_, rfl⟩)).plain
    · have late := noComes.foretells (closed.foretells (foretells.same grows))
      have early := yesMeans context (foretells.same (((((leave.grows.trans grown).trans
        pop.adds.grows).trans noComes.adds.grows).trans closed.adds.grows).trans grows))
      rwa [front.adds.size] at early
    · have late := noMeans context (closed.foretells (foretells.same grows))
      rwa [sizeNinth] at late
  refine follows_accept pop.orderly (fun _ tenth same passed => ?_) fun _ => ?_
  · have inside := (tested.resting resting).grown (between.trans passed.comes).adds.grows
    refine follows_inner mirrors (passed.meets (between.meets (tested.meets meets))) inside
      (passed.expecting same rfl) fun no twelfth second => ?_
    exact ends no twelfth (second.behind passed.comes)
  · exact ends .skip ninth pop.orderly.builds.plain

theorem follows_whileStatement (mirrors : Mirrors grammar nested) (meets : Meets nested state)
    (resting : AtStatement state) :
    Follows grammar.whileStatement nested.whileStatement state fun _ tree last =>
      Builds (tree.Codes · []) state last := by
  unfold Grammar.whileStatement Productions.whileStatement
  refine follows_ran rfl rfl ?_
  refine follows_expect meets.orderly fun _ first same passed => ?_
  refine follows_idle passed.comes.orderly fun _ second _ rested opened => ?_
  have front := passed.comes.trans opened
  refine follows_expression mirrors (front.meets meets)
    (rested.expecting (passed.expecting same rfl)) fun _ condition third tested => ?_
  refine follows_expect tested.orderly fun _ start same passed' => ?_
  obtain ⟨test, testComes, testMeans⟩ := (tested.behind front).before passed'.comes
  have expecting := passed'.expecting same rfl
  refine follows_still testComes.orderly.calm
    (does_emitJump testComes.orderly fun fourth skip skipped => ?_)
  refine follows_emit skip.orderly fun fifth popped pop => ?_
  have front := (testComes.trans (skipped.comes skip)).trans pop
  refine follows_inner mirrors (front.meets meets) (resting.grown front.adds.grows)
    ((skipped.toRests.trans popped).expecting expecting) fun body sixth inner => ?_
  obtain ⟨code, innerComes, innerMeans⟩ := inner
  refine follows_emit innerComes.orderly fun seventh _ back => ?_
  refine follows_idle back.orderly fun _ eighth _ _ closed => ?_
  have behind := ((front.trans innerComes).trans back).trans closed
  have whole : Adds 0 state eighth (test ++ ⟨.jumpIfFalse, -1, 0⟩ :: (⟨.pop, 0, 0⟩ ::
      (code ++ [⟨.jump, state.draft.body.code.size, 0⟩]))) := by
    simpa using behind.adds
  refine follows_still behind.orderly.calm
    (does_patchJump whole testComes.adds.size (by simp) fun ninth grows patched remains => ?_)
  refine follows_emitLast patched.orderly fun last _ pops => ?_
  have size : eighth.draft.body.code.size
      = state.draft.body.code.size + test.length + 2 + code.length + 1 := by
    rw [whole.size]
    simp only [List.length_append, List.length_cons, List.length_nil]
    omega
  rw [size] at patched
  have comes : Comes state ninth _ := ⟨behind.toStays.trans remains.toStays, patched,
    behind.changes.trans remains.changes⟩
  refine Builds.plain ⟨_, comes.trans pops, fun context foretells => ⟨test, code, ?_, ?_, ?_⟩⟩
  · refine testMeans context (foretells.same (((((skip.grows.trans pop.adds.grows).trans
      innerComes.adds.grows).trans back.adds.grows).trans closed.adds.grows).trans
        (grows.trans pops.adds.grows)))
  · have means := innerMeans context (foretells.same ((back.adds.grows.trans
      closed.adds.grows).trans (grows.trans pops.adds.grows)))
    rw [front.adds.size] at means
    simpa [Nat.add_assoc] using means
  · simp

/-- The condition of a `for` loop has been written, with a jump whose target is not known yet. -/
def Asks (before after : State) : Option Nat → Option Expression → Prop
  | none, none => Comes before after []
  | some exit, some condition => ∃ test,
    Comes before after (test ++ [⟨.jumpIfFalse, -1, 0⟩, ⟨.pop, 0, 0⟩]) ∧
      exit = before.draft.body.code.size + test.length ∧
      ∀ context, Foretells context after →
        condition.Codes context before.draft.body.code.size test
  | _, _ => False

omit statements in
theorem follows_forCondition (mirrors : Mirrors grammar nested) (meets : Meets nested state)
    (expecting : Expecting state) :
    Follows grammar.forCondition nested.forCondition state fun exit condition last =>
      Asks state last exit condition ∧ Expecting last := by
  unfold Grammar.forCondition Productions.forCondition
  refine follows_accept meets.orderly (fun _ first same passed => ?_) fun _ => ?_
  · exact follows_pure ⟨passed.comes, passed.expecting same rfl⟩
  · refine follows_expression mirrors meets expecting fun _ tree first tested => ?_
    refine follows_expect tested.orderly fun _ second same passed => ?_
    obtain ⟨test, comes, means⟩ := tested.before passed.comes
    refine follows_still comes.orderly.calm
      (does_emitJump comes.orderly fun third skip skipped => ?_)
    refine follows_emit skip.orderly fun last popped pop => follows_pure ?_
    refine ⟨⟨test, ?_, comes.adds.size, fun context foretells => ?_⟩,
      (skipped.toRests.trans popped).expecting (passed.expecting same rfl)⟩
    · simpa using (comes.trans (skipped.comes skip)).trans pop
    · exact means context (foretells.same (skip.grows.trans pop.adds.grows))

omit statements in
theorem follows_forIncrement (mirrors : Mirrors grammar nested) (meets : Meets nested state)
    (expecting : Expecting state) (condition : Nat) :
    Follows (grammar.forIncrement condition) nested.forIncrement state fun again increment last =>
      Builds (.stepped condition (Source.codesOption increment)) state last ∧
        again = Form.again condition state.draft.body.code.size (Source.codesOption increment) ∧
        Expecting last := by
  unfold Grammar.forIncrement Productions.forIncrement
  refine follows_accept meets.orderly (fun _ first same passed => ?_) fun _ => ?_
  · exact follows_pure ⟨passed.comes.builds fun _ _ => rfl, rfl, passed.expecting same rfl⟩
  · refine follows_still meets.orderly.calm (does_emitJump meets.orderly fun first skip skipped => ?_)
    refine follows_ran rfl rfl ?_
    have front := skipped.comes skip
    refine follows_expression mirrors (front.meets meets) (skipped.toRests.expecting expecting)
      fun _ tree second built => ?_
    obtain ⟨inner, comes, means⟩ := built
    refine follows_emit comes.orderly fun third _ pop => ?_
    refine follows_expect pop.orderly fun _ fourth same passed => ?_
    refine follows_emit passed.comes.orderly fun fifth rested back => ?_
    have behind := (((front.trans comes).trans pop).trans passed.comes).trans back
    have whole : Adds 0 state fifth ([] ++ ⟨.jump, -1, 0⟩
        :: (inner ++ [⟨.pop, 0, 0⟩, ⟨.jump, condition, 0⟩])) := by
      simpa using behind.adds
    refine follows_still behind.orderly.calm
      (does_patchJump whole rfl (by simp) fun last grows written remains => follows_pure ?_)
    have size : fifth.draft.body.code.size
        = state.draft.body.code.size + 1 + inner.length + 2 := by
      rw [whole.size]
      simp only [List.nil_append, List.length_append, List.length_cons, List.length_nil]
      omega
    rw [size] at written
    have stepped : Comes state last _ := ⟨behind.toStays.trans remains.toStays, written,
      behind.changes.trans remains.changes⟩
    refine ⟨stepped.builds fun context foretells => ⟨inner, ?_, rfl⟩, front.adds.size,
      remains.toRests.expecting (rested.expecting (passed.expecting same rfl))⟩
    have early := means context (foretells.same (((pop.adds.grows.trans
      passed.comes.adds.grows).trans back.adds.grows).trans grows))
    rwa [front.adds.size] at early

/-- A `for` loop from its condition on, up to the end of its block. -/
theorem follows_forLoop (mirrors : Mirrors grammar nested) (meets : Meets nested state)
    (resting : AtStatement state) (expecting : Expecting state) (first : Statement)
    {done : Unit → Statement → State → Prop}
    (next : ∀ condition increment body last,
      Builds (.forLoop (Source.codesOption condition) (Source.codesOption increment)
        (Statement.Codes body · [])) state last →
      Follows endScope (pure (Statement.for first condition increment body)) last done) :
    Follows (do
      let condition ← position
      let exit ← grammar.forCondition
      let again ← grammar.forIncrement condition
      grammar.statement
      emitLoop again
      endBranch
      match exit with
      | some exit =>
        patchJump exit
        emit .pop
        endScope
      | none => endScope) (nested.forLoop first) state done := by
  have tail := changes_leaveLoop
  unfold Productions.forLoop
  refine follows_ran rfl rfl ?_
  refine follows_bind ((follows_forCondition mirrors meets expecting).mono ?_)
  rintro exit condition second ⟨asks, expecting⟩
  have asked : ∃ test, Comes state second test := by
    cases exit <;> cases condition
    · exact ⟨[], asks⟩
    · exact asks.elim
    · exact asks.elim
    · obtain ⟨test, comes, _⟩ := asks
      exact ⟨_, comes⟩
  obtain ⟨_, front⟩ := asked
  refine follows_bind ((follows_forIncrement mirrors (front.meets meets) expecting _).mono ?_)
  rintro again increment third ⟨stepped, rfl, expecting⟩
  obtain ⟨steps, stepComes, stepMeans⟩ := stepped
  have inside := resting.grown (front.adds.grows.trans stepComes.adds.grows)
  refine follows_inner mirrors (stepComes.meets (front.meets meets)) inside expecting
    fun body fourth inner => ?_
  obtain ⟨code, innerComes, innerMeans⟩ := inner
  refine follows_emit innerComes.orderly fun fifth _ back => ?_
  refine follows_idle back.orderly fun _ sixth _ _ closed => ?_
  have behind := ((stepComes.trans innerComes).trans back).trans closed
  have late : ∀ {context : Context}, Foretells context sixth → Foretells context fourth :=
    fun foretells => back.foretells (closed.foretells foretells)
  cases exit <;> cases condition
  case none.none =>
    have size : second.draft.body.code.size = state.draft.body.code.size := Adds.size asks.adds
    have whole : Comes state sixth _ := Comes.trans asks behind
    refine next none increment body sixth ⟨_, whole, fun context foretells =>
      ⟨[], steps, code, rfl, ?_, ?_, by simp [size, Source.codesOption]⟩⟩
    · have means := stepMeans context (innerComes.foretells (late foretells))
      rwa [size] at means
    · have means := innerMeans context (late foretells)
      rwa [stepComes.adds.size, size] at means
  case none.some => exact asks.elim
  case some.none => exact asks.elim
  case some.some exit condition =>
    obtain ⟨test, comes, place, testMeans⟩ := asks
    have passed := comes.trans behind
    have whole : Adds 0 state sixth (test ++ ⟨.jumpIfFalse, -1, 0⟩
        :: (⟨.pop, 0, 0⟩ :: (steps ++ code ++ [⟨.jump, Form.again state.draft.body.code.size
          second.draft.body.code.size (Source.codesOption increment), 0⟩]))) := by
      simpa using passed.adds
    refine follows_still passed.orderly.calm
      (does_patchJump whole place (by simp) fun seventh grows patched remains => ?_)
    refine follows_emit patched.orderly fun last _ pops => ?_
    have size : second.draft.body.code.size = state.draft.body.code.size + (test.length + 2) := by
      rw [comes.adds.size]
      simp
    have sizeSixth : sixth.draft.body.code.size
        = state.draft.body.code.size + (test.length + 2) + steps.length + code.length + 1 := by
      rw [whole.size]
      simp only [List.length_append, List.length_cons, List.length_nil]
      omega
    have written : Comes state seventh _ := ⟨passed.toStays.trans remains.toStays, patched,
      passed.changes.trans remains.changes⟩
    refine next (some condition) increment body last ⟨_, written.trans pops,
      fun context foretells => ⟨test ++ [⟨.jumpIfFalse, sixth.draft.body.code.size, 0⟩, ⟨.pop, 0, 0⟩],
        steps, code, ⟨test, _, rfl, ?_, ?_⟩, ?_, ?_, ?_⟩⟩
    all_goals have early := foretells.same (grows.trans pops.adds.grows)
    · exact testMeans context (stepComes.foretells (innerComes.foretells (late early)))
    · simp [sizeSixth]
    · have means := stepMeans context (innerComes.foretells (late early))
      rw [size] at means
      simpa using means
    · have means := innerMeans context (late early)
      rw [stepComes.adds.size, size] at means
      simpa using means
    · simp [size, Source.codesOption]

/-- A `for` loop is a block with its first clause in it. -/
theorem follows_forStatement (mirrors : Mirrors grammar nested) (meets : Meets nested state)
    (resting : AtStatement state) :
    Follows grammar.forStatement nested.forStatement state fun _ tree last =>
      Builds (tree.Codes · []) state last := by
  have tail := changes_leaveLoop
  have loops : ∀ (first : Statement) middle, Lays first.Codes state.opened middle →
      middle.knows = state.knows → Expecting middle → Follows (do
        beginBranch
        let condition ← position
        let exit ← grammar.forCondition
        let again ← grammar.forIncrement condition
        grammar.statement
        emitLoop again
        endBranch
        match exit with
        | some exit =>
          patchJump exit
          emit .pop
          endScope
        | none => endScope) (nested.forLoop first) middle fun _ tree last =>
          Builds (tree.Codes · []) state last := by
    intro first middle lays knows expecting
    refine follows_idle lays.orderly fun _ start _ rested opened => ?_
    have front := lays.before opened
    have here : Meets nested start := ⟨front.orderly,
      (opened.toStays.knows.trans knows).trans meets.knows,
      capturesOnce_of_changes front.changes meets.opened.once,
      (worded_of_changes front.changes).mpr meets.opened.worded⟩
    refine follows_forLoop mirrors here (front.resting resting.opened) (rested.expecting expecting)
      first fun condition increment body last loop => ?_
    refine follows_endScope meets.orderly resting (front.andThen loop.lays) ?_
      fun _ enclosed => enclosed.plain
    rw [loop.stays.knows, opened.toStays.knows, knows]
  unfold Grammar.forStatement Productions.forStatement
  dsimp only
  have opened := meets.opened
  refine follows_silent (does_beginScope ⟨rfl, ?_⟩)
  refine follows_expect opened.orderly fun _ first same passed => ?_
  refine follows_accept passed.comes.orderly (fun _ second same passed' => ?_) fun _ => ?_
  · have comes := passed.comes.trans passed'.comes
    refine loops .skip second (Builds.lays ((comes.orderly.builds).behind comes)) ?_
      (passed'.expecting same rfl)
    exact comes.toStays.knows
  have expecting := passed.expecting same rfl
  refine follows_accept passed.comes.orderly (fun _ second same passed' => ?_) fun _ => ?_
  · have comes := passed.comes.trans passed'.comes
    have inside := resting.opened.grown comes.adds.grows
    refine follows_bind (Follows.mono (follows_varDeclaration mirrors (comes.meets opened) inside) ?_)
    rintro _ tree third ⟨lays, knows, expecting⟩
    exact loops tree third (lays.behind comes) (knows.trans comes.toStays.knows) expecting
  · have meets := passed.meets opened
    refine follows_bind (Follows.mono (follows_expressionStatement mirrors meets expecting) ?_)
    rintro _ tree third ⟨built, lays, expecting⟩
    exact loops tree third (lays.behind passed.comes)
      (built.stays.knows.trans passed.comes.toStays.knows) expecting

variable [declarations : ∀ origin, Keeps (Changes origin) grammar.declaration]

theorem follows_parseStatement (mirrors : Mirrors grammar nested) (meets : Meets nested state)
    (resting : AtStatement state) (expecting : Expecting state) :
    Follows grammar.parseStatement nested.readStatement state fun _ tree last =>
      Builds (tree.Codes · []) state last := by
  -- Every kind of statement stands behind a keyword that has been passed.
  have behind : ∀ {production : Compile Unit} {reading : Reading Statement} {token : Token}
      {middle : State}, Passed token state middle →
      (Meets nested middle → AtStatement middle → Follows production reading middle
        fun _ tree last => Builds (tree.Codes · []) middle last) →
      Follows production reading middle fun _ tree last => Builds (tree.Codes · []) state last := by
    intro production reading token middle passed follows
    exact (follows (passed.meets meets) (resting.grown passed.comes.adds.grows)).mono
      fun _ _ _ built => built.behind passed.comes
  unfold Grammar.parseStatement Productions.readStatement
  refine follows_accept meets.orderly (fun _ _ same passed => behind passed fun meets _ =>
    follows_printStatement mirrors meets (passed.expecting same rfl)) fun _ => ?_
  refine follows_accept meets.orderly (fun _ _ _ passed => behind passed
    (follows_ifStatement mirrors)) fun _ => ?_
  refine follows_accept meets.orderly (fun _ _ _ passed => behind passed
    (follows_whileStatement mirrors)) fun _ => ?_
  refine follows_accept meets.orderly (fun _ _ _ passed => behind passed
    (follows_forStatement mirrors)) fun _ => ?_
  refine follows_accept meets.orderly (fun _ _ same passed => behind passed fun meets _ =>
    follows_returnStatement mirrors meets (passed.expecting same rfl)) fun _ => ?_
  refine follows_accept meets.orderly (fun _ _ _ passed => behind passed fun meets resting => ?_)
    fun _ => (follows_expressionStatement mirrors meets expecting).mono fun _ _ _ holds => holds.1
  refine follows_silent (does_beginScope ⟨rfl, ?_⟩)
  refine follows_bind ((follows_block mirrors meets.opened resting.opened ?_).mono ?_)
  · simp [State.opened, State.withDraft, Draft.atTopLevel]
  · rintro _ body last ⟨lays, knows⟩
    exact follows_endScope meets.orderly resting lays knows fun _ enclosed => enclosed.plain

end Jumping

end ScriptMachine.Compiler
