import ScriptMachine.Proofs.Compiler.Functions

set_option autoImplicit false
set_option synthInstance.maxSize 20000

/- Expressions in a quiet compilation. Whatever an operand is made of, its code leaves one value on
the stack and touches nothing below. -/
namespace ScriptMachine.Compiler

open Prototype (Setting Note Settles Sound Marked)

section Moving

variable {α : Type} {origin state : State} {taken between given : Nat}

theorem Moves.grows (moves : Moves taken given origin state) : Grows 0 origin state := by
  obtain ⟨_, adds, _⟩ := moves
  exact adds.grows

theorem Orderly.still (orderly : Orderly state) (count : Nat) : Moves count count state state :=
  orderly.unchanged.nothing count

/-- An action that writes nothing. -/
theorem does_pass {action : Compile α} {done : α → State → Prop}
    [idles : Keeps (Idle state) action] [keeps : Keeps (Changes state) action]
    (moved : Moves taken between origin state)
    (next : ∀ value later, Moves taken between origin later → done value later) :
    Does action state done :=
  does_idle moved.orderly fun value later idle =>
    next value later (moved.trans (idle.nothing between))

/-- An instruction without operands. -/
theorem does_op {op : Opcode} {needs drops adds : Nat} {done : Unit → State → Prop}
    (moved : Moves taken between origin state) (plain : op.isJump = false) (other : op ≠ .closure)
    (effect : ∀ body : Prototype, body.effect ⟨op, 0, 0⟩ = ⟨needs, drops, adds⟩)
    (operands : ∀ (setting : Setting) (height : Nat),
      setting.body.OperandsFit setting.heap setting.registry height ⟨op, 0, 0⟩)
    (enough : needs ≤ between) (few : drops ≤ between)
    (next : ∀ later, Moves taken (between - drops + adds) origin later → done () later) :
    Does (emit op) state done :=
  does_simple moved.orderly plain other effect enough few rfl operands fun later more =>
    next later (moved.trans more)

/-- A name has been filed among the constants. -/
def Named (state : State) (index : Nat) : Prop :=
  ∃ id text, state.draft.body.constants[index]? = some (.ref id) ∧
    state.heap.get? id = some (.string text)

theorem Named.grown {later : State} {added index : Nat} (named : Named state index)
    (grows : Grows added state later) : Named later index := by
  obtain ⟨id, text, here, string⟩ := named
  refine ⟨id, text, getElem?_of_prefix grows.draft.constants here, ?_⟩
  rw [grows.heap id (.root (mem_pool_of_references (Prototype.mem_references here))), string]

theorem does_name {text : Text} {done : Int → State → Prop}
    (moved : Moves taken between origin state)
    (next : ∀ (index : Nat) later, Named later index → Moves taken between origin later →
      done index later) : Does (textConstant text) state done :=
  does_textConstant moved.orderly fun index id later adds here string =>
    next index later ⟨id, text, here, string⟩ (moved.trans (adds.nothing between))

/-- An instruction that names something. -/
theorem does_named {op : Opcode} {index needs drops adds : Nat} {done : Unit → State → Prop}
    (moved : Moves taken between origin state) (named : Named state index)
    (plain : op.isJump = false) (other : op ≠ .closure)
    (effect : ∀ body : Prototype, body.effect ⟨op, index, 0⟩ = ⟨needs, drops, adds⟩)
    (operands : ∀ (setting : Setting) (height : Nat), setting.body.Names setting.heap index →
      setting.body.OperandsFit setting.heap setting.registry height ⟨op, index, 0⟩)
    (enough : needs ≤ between) (few : drops ≤ between)
    (next : ∀ later, Moves taken (between - drops + adds) origin later → done () later) :
    Does (emitOperand op index) state done := by
  obtain ⟨id, text, here, string⟩ := named
  refine does_emitOperand moved.orderly plain other effect enough few rfl ?_ fun later more =>
    next later (moved.trans more)
  intro later setting flags height grows foresees above
  exact operands setting _ ((foresees.earlier grows).names here string)

variable {grammar : Grammar}

theorem does_operand {done : Shape → State → Prop} (behaves : grammar.Behaves) (level : Level)
    (moved : Moves taken between origin state)
    (next : ∀ shape later, Moves taken (between + 1) origin later → done shape later) :
    Does (grammar.operand level) state done :=
  (behaves.operand level moved.orderly).mono fun shape later more =>
    next shape later (moved.trans (more.below between))

end Moving

section Productions

variable {grammar : Grammar} {origin state : State} {taken between : Nat}
  [operands : ∀ origin level, Keeps (Changes origin) (grammar.operand level)]
  [declarations : ∀ origin, Keeps (Changes origin) grammar.declaration]

omit declarations in
theorem does_arguments {done : Nat → State → Prop} (behaves : grammar.Behaves)
    (moved : Moves taken between origin state)
    (next : ∀ count later, Moves taken (between + count) origin later → done count later) :
    Does grammar.arguments state done := by
  let inv : Nat → State → Prop := fun count later =>
    count ≤ maxArguments ∧ Moves taken (between + count) origin later
  have ends : ∀ count middle, inv count middle → Does (do
      let _ ← expect .rightParen "')' after arguments"
      return min count maxArguments) middle done := by
    intro count middle holds
    refine does_bind (does_pass holds.2 fun _ last moved => does_pure ?_)
    rw [Nat.min_eq_left holds.1]
    exact next count last moved
  unfold Grammar.arguments
  dsimp only
  refine does_bind (does_pass moved fun closes first moved => ?_)
  refine does_ite (fun _ => ?_) fun _ => ends 0 first ⟨Nat.zero_le _, moved⟩
  refine does_seq inv (does_iterate inv (fun count round holds => ?_) grammar.bound 0
    ⟨Nat.zero_le _, moved⟩) ends
  refine does_bind (does_operand behaves .assignment holds.2 fun _ second moved => ?_)
  refine does_ite (fun _ => does_bind (does_error moved.orderly.calm)) fun few => ?_
  refine does_bind (does_pass moved fun more last moved => does_pure ?_)
  have inside : inv (count + 1) last := by
    refine ⟨?_, moved⟩
    have known := holds.1
    have apart : count ≠ maxArguments := by simpa using few
    omega
  cases more <;> exact inside

/-- The initialisers of a struct literal have left their values, and each fills a slot of its
own. -/
def Fills (type : StructType) (taken between : Nat) (origin : State) (layout : List Nat)
    (state : State) : Prop :=
  (∀ slot ∈ layout, slot < type.fields.length) ∧ Moves taken (between + layout.length) origin state

omit declarations in
theorem does_initialiser (behaves : grammar.Behaves) {type : StructType} {onHeap : Bool}
    {layout : List Nat} (fills : Fills type taken between origin layout state) :
    Does (grammar.initialiser type onHeap layout) state (Fills type taken between origin) := by
  unfold Grammar.initialiser
  refine does_andThen (fun field origin => ?_) (does_pass fills.2 fun field first moved => ?_)
  · dsimp only
    cases type.findField field.text <;> infer_instance
  dsimp only
  cases found : type.findField field.text with
  | none => exact does_bind (does_errorAt moved.orderly.calm)
  | some slot =>
    have inside : slot < type.fields.length :=
      (List.findIdx?_eq_some_iff_getElem.mp found).1
    refine does_ite (fun _ => does_bind (does_errorAt moved.orderly.calm)) fun new => ?_
    refine does_bind (does_pass moved fun _ second moved => ?_)
    refine does_bind (does_operand behaves .assignment moved fun value third moved => ?_)
    have filled : ∀ last, Moves taken (between + layout.length + 1) origin last →
        Does (pure (if layout.contains slot = true then layout else slot :: layout)) last
          (Fills type taken between origin) := by
      intro last moved
      rw [if_neg new]
      refine does_pure ⟨fun other member => ?_, moved⟩
      rcases List.mem_cons.mp member with rfl | old
      · exact inside
      · exact fills.1 other old
    refine does_ite (fun _ => ?_) fun _ => filled third moved
    refine does_bind (does_op moved rfl (by simp) (fun _ => rfl) (fun _ _ => trivial) ?_ ?_ filled)
    all_goals omega

/-- The state with one more layout. -/
def State.laid (state : State) (layout : List Nat) : State :=
  state.withBody { state.draft.body with layouts := state.draft.body.layouts.push layout }

omit operands declarations in
theorem Orderly.laid (orderly : Orderly state) (layout : List Nat) :
    Adds 0 state (state.laid layout) [] := by
  have grows : Grows 0 state (state.laid layout) := by
    refine .withBody rfl rfl rfl (List.prefix_refl _) rfl ?_
    rw [Array.toList_push]
    exact List.prefix_append _ _
  refine ⟨?_, grows, grows.stages rfl fun worded => worded, by simp [State.laid, State.withBody]⟩
  exact orderly.withCode grows rfl rfl (orderly.each state.draft List.mem_cons_self).lined
    fun _ member => member

omit operands declarations in
/-- The instruction that builds a struct from the values of its initialisers. -/
theorem does_build {type : StructType} {id : StructId} {op : Opcode} {layout : List Nat}
    {done : Unit → State → Prop} (builds : op = .stackStruct ∨ op = .heapStruct)
    (known : state.struct? id = some type) (fills : Fills type taken between origin layout state)
    (next : ∀ later, Moves taken (between + 1) origin later → done () later) :
    Does (emitWith op id state.draft.body.layouts.size) (state.laid layout.reverse) done := by
  let index := state.draft.body.layouts.size
  have adds := fills.2.orderly.laid layout.reverse
  have moved := fills.2.trans (adds.nothing (between + layout.length))
  refine does_emit adds.orderly fun later written _ => next later (moved.trans ?_)
  have layouts : ∀ setting flags, Foresees setting flags later →
      setting.body.layout? index = some layout.reverse := by
    intro setting flags foresees
    rw [Prototype.layout?_natCast]
    refine getElem?_of_prefix (written.grows.draft.layouts.trans foresees.layouts) ?_
    exact Array.getElem?_push_size
  have effect : ∀ setting flags, Foresees setting flags later →
      setting.body.effect ⟨op, id, index⟩ = ⟨layout.length, layout.length, 1⟩ := by
    intro setting flags foresees
    have count : ((setting.body.layout? index).map List.length).getD 0 = layout.length := by
      rw [layouts setting flags foresees]
      simp
    rcases builds with rfl | rfl <;> simp only [Prototype.effect, count]
  refine written.moves ?_ ?_ effect ?_ ?_ ?_ fun setting flags height foresees above => ?_
  · rcases builds with rfl | rfl <;> rfl
  · rcases builds with rfl | rfl <;> simp
  · omega
  · omega
  · omega
  · obtain ⟨same, isKnown, fields⟩ := foresees.knows id type
      (written.grows.structs id type (adds.grows.structs id type known))
    have fits : setting.body.Builds setting.registry ⟨op, id, index⟩ := by
      refine ⟨Int.natCast_nonneg _, same, layout.reverse, isKnown, layouts setting flags foresees, ?_⟩
      intro slot member
      rw [fields]
      exact fills.1 slot (List.mem_reverse.mp member)
    rcases builds with rfl | rfl <;> exact fits

omit declarations in
theorem does_structLiteral (behaves : grammar.Behaves) {id : StructId} {type : StructType}
    (onHeap : Bool) (known : state.struct? id = some type) (orderly : Orderly state) :
    Does (grammar.structLiteral id onHeap) state fun _ last => Moves 0 1 state last := by
  have lays : ∀ origin (slots : List Nat), Keeps (Changes origin)
      (modifyBody fun body => { body with layouts := body.layouts.push slots }) :=
    fun _ _ => keeps_body fun _ => ⟨rfl, rfl⟩
  let inv : List Nat → State → Prop := Fills type 0 0 state
  have ends : ∀ layout middle, inv layout middle → Does (do
      let _ ← expect .rightBrace "'\x7d' after struct literal fields"
      let index := (← draft).body.layouts.size
      modifyBody fun body => { body with layouts := body.layouts.push layout.reverse }
      emitWith (if onHeap then .heapStruct else .stackStruct) id index
      return ({
        placement := if onHeap then .heap else .stack
        fresh := !onHeap
        holdsLiteral := !onHeap
        struct := some id } : Shape)) middle fun _ last => Moves 0 1 state last := by
    intro layout middle fills
    refine does_bind (does_pass fills.2 fun _ closed moved => does_ran rfl (does_ran rfl ?_))
    refine does_bind (does_build (by cases onHeap <;> simp) (moved.grows.structs id type known)
      ⟨fills.1, moved⟩ fun last moved => does_pure ?_)
    rwa [Nat.zero_add] at moved
  unfold Grammar.structLiteral
  dsimp only
  refine does_ran rfl ?_
  rw [known, Option.getD_some]
  refine does_bind (does_pass (orderly.still 0) fun _ first moved => ?_)
  refine does_bind (does_pass moved fun closes second moved => ?_)
  have start : inv [] second := ⟨by simp, moved⟩
  refine does_ite (fun _ => ?_) fun _ => ends [] second start
  refine does_seq inv (does_iterate inv (fun layout round fills => ?_) grammar.bound [] start) ends
  refine does_bind (does_pass fills.2 fun closes third moved => ?_)
  refine does_ite (fun _ => does_pure ⟨fills.1, moved⟩) fun _ => ?_
  refine does_bind ((does_initialiser behaves ⟨fills.1, moved⟩).mono fun layout fourth fills => ?_)
  refine does_bind (does_pass fills.2 fun more last moved => does_pure ?_)
  have inside : inv layout last := ⟨fills.1, moved⟩
  cases more <;> exact inside

omit operands declarations in
/-- An instruction that reads or writes a local. -/
theorem does_slot {op : Opcode} {slot needs drops adds : Nat} {done : Unit → State → Prop}
    (moved : Moves taken between origin state) (inside : slot < origin.draft.visible.length)
    (isLocal : op = .getLocal ∨ op = .setLocal)
    (effect : ∀ body : Prototype, body.effect ⟨op, slot, 0⟩ = ⟨needs, drops, adds⟩)
    (enough : needs ≤ between) (few : drops ≤ between)
    (next : ∀ later, Moves taken (between - drops + adds) origin later → done () later) :
    Does (emitOperand op slot) state done := by
  refine does_emitOperand moved.orderly ?_ ?_ effect enough few rfl ?_ fun later more =>
    next later (moved.trans more)
  · rcases isLocal with rfl | rfl <;> rfl
  · rcases isLocal with rfl | rfl <;> simp
  · intro later setting flags height grows foresees above
    have count := ((foresees.earlier grows).earlier moved.grows).flags.length_eq
    simp only [List.drop_zero] at count
    have fits : (0 : Int) ≤ slot ∧ (slot : Int).toNat < height + between := by omega
    rcases isLocal with rfl | rfl <;> exact fits

omit declarations in
theorem does_localVariable (behaves : grammar.Behaves) {slot : Nat} (canAssign : Bool)
    (orderly : Orderly state) (inside : slot < state.draft.visible.length) :
    Does (grammar.localVariable slot canAssign) state fun _ last => Moves 0 1 state last := by
  have shapes : ∀ (value : Shape) (inv : State → Prop) [Indifferent inv], Keeps inv
      (modifyDraft fun draft => draft.modifyLocal slot fun found =>
        let always := found.branch == draft.branchDepth && !found.captured
        { found with shape := if always then value.stored else found.shape.merge value.stored }) :=
    fun value inv _ => keeps_alike fun draft => draft.alike_modify _ fun found => rfl
  unfold Grammar.localVariable
  dsimp only
  refine does_bind (does_pass (orderly.still 0) fun assigns first moved => ?_)
  refine does_ite (fun _ => ?_) fun _ => ?_
  · refine does_bind (does_operand behaves .assignment moved fun value second moved => ?_)
    have stores : ∀ middle, Moves 0 1 state middle → Does (do
        modifyDraft fun draft => draft.modifyLocal slot fun found =>
          let always := found.branch == draft.branchDepth && !found.captured
          { found with shape := if always then value.stored else found.shape.merge value.stored }
        emitOperand .setLocal slot
        return value.stored) middle fun _ last => Moves 0 1 state last := by
      intro middle moved
      refine does_bind (does_pass moved fun _ third moved => ?_)
      exact does_bind (does_slot moved inside (Or.inr rfl) (fun _ => rfl) (by omega) (by omega)
        fun last moved => does_pure moved)
    refine does_ite (fun _ => ?_) fun _ => stores second moved
    exact does_bind (does_op moved rfl (by simp) (fun _ => rfl) (fun _ _ => trivial) (by omega)
      (by omega) stores)
  · refine does_bind (does_slot moved inside (Or.inl rfl) (fun _ => rfl) (by omega) (by omega)
      fun last moved => ?_)
    exact does_ran rfl (does_pure moved)

omit operands declarations in
/-- An instruction that reads or writes a variable of a function around. -/
theorem does_captured {op : Opcode} {index needs drops adds : Nat} {done : Unit → State → Prop}
    (moved : Moves taken between origin state) (inside : index < origin.draft.body.captures.size)
    (isCaptured : op = .getUpvalue ∨ op = .setUpvalue)
    (effect : ∀ body : Prototype, body.effect ⟨op, index, 0⟩ = ⟨needs, drops, adds⟩)
    (enough : needs ≤ between) (few : drops ≤ between)
    (next : ∀ later, Moves taken (between - drops + adds) origin later → done () later) :
    Does (emitOperand op index) state done := by
  refine does_emitOperand moved.orderly ?_ ?_ effect enough few rfl ?_ fun later more =>
    next later (moved.trans more)
  · rcases isCaptured with rfl | rfl <;> rfl
  · rcases isCaptured with rfl | rfl <;> simp
  · intro later setting flags height grows foresees above
    have count := ((foresees.earlier grows).earlier moved.grows).captures.length_le
    simp only [Array.length_toList] at count
    have fits : (0 : Int) ≤ index ∧ (index : Int).toNat < setting.body.captures.size := by omega
    rcases isCaptured with rfl | rfl <;> exact fits

omit declarations in
theorem does_upvalueVariable (behaves : grammar.Behaves) {index : Nat} (canAssign : Bool)
    (orderly : Orderly state) (inside : index < state.draft.body.captures.size) :
    Does (grammar.upvalueVariable index canAssign) state fun _ last => Moves 0 1 state last := by
  unfold Grammar.upvalueVariable
  refine does_bind (does_pass (orderly.still 0) fun assigns first moved => ?_)
  refine does_ite (fun _ => ?_) fun _ => ?_
  · refine does_bind (does_operand behaves .assignment moved fun value second moved => ?_)
    exact does_bind (does_captured moved inside (Or.inr rfl) (fun _ => rfl) (by omega) (by omega)
      fun last moved => does_pure moved)
  · exact does_bind (does_captured moved inside (Or.inl rfl) (fun _ => rfl) (by omega) (by omega)
      fun last moved => does_pure moved)

omit operands declarations in
/-- What is known of a global when it is read. -/
theorem changes_readGlobal (name : Text) (origin known : State) : Keeps (Changes origin)
    (match known.globals[name]? with
      | none => pure {}
      | some known =>
        let arity := if known.reassigned then none else known.shape.arity
        pure { known.shape.stored with arity } : Compile Shape) := by
  split <;> infer_instance

omit declarations in
theorem does_globalVariable (behaves : grammar.Behaves) (name : Token) (canAssign : Bool)
    (orderly : Orderly state) :
    Does (grammar.globalVariable name canAssign) state fun _ last => Moves 0 1 state last := by
  have assigns : ∀ (origin : State) (value : Shape), Keeps (Changes origin) (modify fun state : State =>
      let known := (state.globals[name.text]?.map Global.shape).getD {}
      { state with
        globals := state.globals.insert name.text ⟨known.merge value.stored, true⟩ } :
      Compile Unit) :=
    fun _ _ => keeps_change fun state => .declare _ state.implType (.refl _)
  have idles : ∀ (origin : State) (value : Shape), Keeps (Idle origin) (modify fun state : State =>
      let known := (state.globals[name.text]?.map Global.shape).getD {}
      { state with
        globals := state.globals.insert name.text ⟨known.merge value.stored, true⟩ } :
      Compile Unit) :=
    fun _ _ => keeps_idle fun _ => ⟨rfl, rfl, rfl, rfl, .rfl, ⟨rfl, rfl, rfl, rfl, rfl, rfl⟩⟩
  have reads := changes_readGlobal name.text
  unfold Grammar.globalVariable
  dsimp only
  refine does_bind (does_name (orderly.still 0) fun index first named front => ?_)
  refine does_bind (does_pass (front.orderly.still 0) fun assigns second moved => ?_)
  refine does_ite (fun _ => ?_) fun _ => ?_
  · refine does_bind (does_operand behaves .assignment moved fun value third moved => ?_)
    refine does_ite (fun _ => does_bind (does_errorAt moved.orderly.calm)) fun _ => ?_
    refine does_bind (does_pass moved fun _ fourth moved => ?_)
    exact does_bind (does_named moved (named.grown moved.grows) rfl (by simp) (fun _ => rfl)
      (fun _ _ names => names) (by omega) (by omega) fun last moved => does_pure (front.trans moved))
  · refine does_bind (does_named moved (named.grown moved.grows) rfl (by simp) (fun _ => rfl)
      (fun _ _ names => names) (by omega) (by omega) fun last moved => does_ran rfl ?_)
    split <;> exact does_pure (front.trans moved)

omit declarations in
/-- A variable that is no local of the function. -/
theorem changes_outerVariable (name : Token) (canAssign : Bool) (origin : State) (index : Option Nat) :
    Keeps (Changes origin)
      (match index with
        | some index => grammar.upvalueVariable index canAssign
        | none => grammar.globalVariable name canAssign) := by
  split <;> infer_instance

omit declarations in
theorem does_namedVariable (behaves : grammar.Behaves) (name : Token) (canAssign : Bool)
    (orderly : Orderly state) (named : state.cursor.Worded → name.text ≠ []) :
    Does (grammar.namedVariable name canAssign) state fun _ last => Moves 0 1 state last := by
  have captures := @changes_outerVariable grammar _ name canAssign
  unfold Grammar.namedVariable
  refine does_andThen (fun found origin => ?_) (does_resolveLocal orderly ?_ ?_)
  · split <;> infer_instance
  · intro slot inside
    exact does_localVariable behaves canAssign orderly inside
  · refine does_bind (does_resolveUpvalue orderly named fun index later adds bounded => ?_)
    have front := adds.nothing 0
    cases index with
    | some index =>
      exact (does_upvalueVariable behaves canAssign adds.orderly (bounded index rfl)).mono
        fun _ _ moved => front.trans moved
    | none =>
      exact (does_globalVariable behaves name canAssign adds.orderly).mono
        fun _ _ moved => front.trans moved

omit operands declarations in
theorem State.struct?_of_findStruct {name : Text} {id : StructId}
    (found : state.findStruct name = some id) : ∃ type, state.struct? id = some type := by
  unfold State.findStruct at found
  unfold State.struct?
  cases old : state.registry.findStruct name with
  | some known =>
    rw [old] at found
    cases found
    have inside := (Array.findIdx?_eq_some_iff_getElem.mp old).1
    exact ⟨_, by rw [Registry.struct?, Array.getElem?_eq_getElem inside]; rfl⟩
  | none =>
    rw [old] at found
    obtain ⟨index, new, rfl⟩ := Option.map_eq_some_iff.mp found
    have inside := (Array.findIdx?_eq_some_iff_getElem.mp new).1
    refine ⟨state.staged.structs[index], ?_⟩
    have unknown : state.registry.struct? (state.registry.nextId + index) = none :=
      Array.getElem?_eq_none (Nat.le_add_right _ _)
    rw [unknown, Nat.add_sub_cancel_left, Array.getElem?_eq_getElem inside]
    rfl

omit declarations in
theorem does_identifier (behaves : grammar.Behaves) (canAssign : Bool) (orderly : Orderly state)
    (isWord : state.cursor.previous.kind = .identifier) :
    Does (grammar.identifier canAssign) state fun _ last => Moves 0 1 state last := by
  unfold Grammar.identifier
  refine does_ran rfl (does_ran rfl (does_ran rfl ?_))
  dsimp only
  split
  · next id isStruct =>
    have found : state.findStruct state.cursor.previous.text = some id := by
      split at isStruct
      · exact isStruct
      · cases isStruct
    obtain ⟨type, known⟩ := State.struct?_of_findStruct found
    exact does_structLiteral behaves false known orderly
  · exact does_namedVariable behaves _ canAssign orderly fun worded => Cursor.worded_previous worded isWord

omit declarations in
theorem does_receiver (behaves : grammar.Behaves) (orderly : Orderly state) :
    Does grammar.receiver state fun _ last => Moves 0 1 state last := by
  unfold Grammar.receiver
  refine does_ran rfl ?_
  refine does_ite (fun _ => does_bind (does_error orderly.calm)) fun _ => does_ran rfl ?_
  have named : ascii "self" ≠ [] := by decide
  refine does_bind ((does_namedVariable behaves _ false orderly fun _ => named).mono ?_)
  exact fun _ last moved => does_ran rfl (does_pure moved)

omit declarations in
theorem does_heapStruct (behaves : grammar.Behaves) (orderly : Orderly state) :
    Does grammar.heapStruct state fun _ last => Moves 0 1 state last := by
  unfold Grammar.heapStruct
  refine does_andThen (fun name origin => ?_) (does_pass (orderly.still 0) fun name first front => ?_)
  · refine Keeps.andThen inferInstance fun state => ?_
    split <;> infer_instance
  · refine does_ran rfl ?_
    split
    · next id found =>
      obtain ⟨type, known⟩ := State.struct?_of_findStruct found
      exact (does_structLiteral behaves true known front.orderly).mono
        fun _ _ moved => front.trans moved
    · exact does_bind (does_errorAt front.orderly.calm)

omit operands in
theorem does_functionLiteral (behaves : grammar.Behaves) (orderly : Orderly state) :
    Does grammar.functionLiteral state fun _ last => Moves 0 1 state last := by
  unfold Grammar.functionLiteral
  refine does_bind ((does_function behaves _ (by simp) orderly).mono ?_)
  rintro ⟨id, arity⟩ first ⟨body, _, _, returns⟩
  refine does_bind (does_fileFunction returns ?_)
  refine does_bind (does_emitClosure returns fun last makes => does_pure ?_)
  exact (makes.after returns.adds).moves

/-- A constant is pushed. -/
theorem does_constant {index : Nat} {value : Value} {done : Unit → State → Prop}
    (moved : Moves taken between origin state)
    (here : state.draft.body.constants[index]? = some value)
    (next : ∀ later, Moves taken (between + 1) origin later → done () later) :
    Does (emitOperand .constant index) state done := by
  refine does_emitOperand moved.orderly rfl (by simp) (fun _ => rfl) (Nat.zero_le _) (Nat.zero_le _)
    rfl ?_ fun later more => next later (moved.trans more)
  intro later setting flags height grows foresees above
  have present := (foresees.earlier grows).constant here
  change (setting.body.constant? index).isSome = true
  rw [present]
  rfl

theorem does_opening (behaves : grammar.Behaves) (canAssign : Bool) (opening : Opening)
    (orderly : Orderly state) (isOpening : Opening.of? state.cursor.previous.kind = some opening) :
    Does (grammar.opening canAssign opening) state fun _ last => Moves 0 1 state last := by
  unfold Grammar.opening
  cases opening with
  | grouping =>
    refine does_bind (does_operand behaves .assignment (orderly.still 0) fun _ first moved => ?_)
    exact does_bind (does_pass moved fun _ last moved => does_pure moved)
  | unary =>
    refine does_ran rfl ?_
    refine does_bind (does_operand behaves .unary (orderly.still 0) fun _ first moved => ?_)
    split
    all_goals exact does_bind (does_op moved rfl (by simp) (fun _ => rfl) (fun _ _ => trivial)
      (by omega) (by omega) fun last moved => does_pure moved)
  | «variable» =>
    refine does_identifier behaves canAssign orderly ?_
    generalize state.cursor.previous.kind = kind at isOpening
    cases kind <;> first | rfl | cases isOpening
  | string =>
    refine does_ran rfl ?_
    refine does_bind (does_textConstant orderly fun index id first adds here _ => ?_)
    exact does_bind (does_constant (adds.nothing 0) here fun last moved => does_pure moved)
  | number =>
    refine does_ran rfl ?_
    refine does_bind (does_makeConstant orderly (by rintro _ ⟨⟩) fun index first adds _ here => ?_)
    exact does_bind (does_constant (adds.nothing 0) here fun last moved => does_pure moved)
  | literal =>
    refine does_ran rfl ?_
    split
    all_goals exact does_bind (does_op (orderly.still 0) rfl (by simp) (fun _ => rfl)
      (fun _ _ => trivial) (by omega) (by omega) fun last moved => does_pure moved)
  | receiver => exact does_receiver behaves orderly
  | heapStruct => exact does_heapStruct behaves orderly
  | function => exact does_functionLiteral behaves orderly

omit declarations in
theorem does_shortCircuit (behaves : grammar.Behaves) (left : Shape) {skip : Opcode} (level : Level)
    (conditional : skip = .jumpIfFalse ∨ skip = .jumpIfTrue) (orderly : Orderly state) :
    Does (grammar.shortCircuit left skip level) state fun _ last => Moves 1 1 state last := by
  have opens : ∀ (inv : State → Prop) [Indifferent inv], Keeps inv
      (modifyDraft fun draft => { draft with branchDepth := draft.branchDepth + 1 }) :=
    fun _ _ => keeps_alike fun _ => ⟨rfl, rfl, rfl, rfl, rfl, rfl⟩
  have closes : ∀ (inv : State → Prop) [Indifferent inv], Keeps inv
      (modifyDraft fun draft => { draft with branchDepth := draft.branchDepth - 1 }) :=
    fun _ _ => keeps_alike fun _ => ⟨rfl, rfl, rfl, rfl, rfl, rfl⟩
  unfold Grammar.shortCircuit
  refine does_bind (does_emitJump orderly fun first jump => ?_)
  refine does_bind (does_emit jump.orderly fun second pop _ => ?_)
  refine does_bind (does_idle pop.orderly fun _ third opened => ?_)
  refine does_bind ((behaves.operand level opened.orderly).mono fun right fourth moves => ?_)
  obtain ⟨code, adds, settles⟩ := moves
  refine does_bind (does_idle adds.orderly fun _ fifth closed => ?_)
  have front := (jump.trans pop).trans opened
  have written : Adds 0 state fifth ([] ++ ⟨skip, -1, 0⟩ :: ⟨.pop, 0, 0⟩ :: code) := by
    simpa using (front.trans adds).trans closed
  have other : skip ≠ .closure := by rcases conditional with rfl | rfl <;> simp
  refine does_bind (does_patchJump written rfl other fun last grows patched => does_pure ?_)
  have size : fifth.draft.body.code.size = state.draft.body.code.size + 2 + code.length := by
    rw [written.size]
    simp only [List.nil_append, List.length_cons]
    omega
  rw [size] at patched
  refine ⟨_, patched, fun setting flags foresees known height above => ?_⟩
  refine Prototype.settles_skip conditional above (fun known => ?_) known
  have right := settles setting flags
    ((foresees.earlier grows).earlier closed.grows) known height above
  rwa [front.size] at right

omit declarations in
theorem does_call (behaves : grammar.Behaves) (callee : Shape) (orderly : Orderly state) :
    Does (grammar.call callee) state fun _ last => Moves 1 1 state last := by
  have calls : ∀ (given : Nat) middle, Moves 1 (1 + given) state middle → Does (do
      emitOperand .call given
      return Shape.anything) middle fun _ last => Moves 1 1 state last := by
    intro given middle moved
    refine does_bind (does_emitOperand moved.orderly rfl (by simp) (fun _ => rfl) ?_ ?_ ?_
      (fun _ _ _ _ _ _ _ => Int.natCast_nonneg _) fun last more => does_pure (moved.trans more))
    all_goals
      simp only [Int.toNat_natCast]
      omega
  unfold Grammar.call
  dsimp only
  cases callee.arity with
  | none =>
    exact does_bind (does_arguments behaves (orderly.still 1) fun given first moved =>
      calls given first moved)
  | some arity =>
    refine does_bind (does_arguments behaves (orderly.still 1) fun given first moved => ?_)
    exact does_ite (fun _ => does_bind (does_error moved.orderly.calm)) fun _ =>
      calls given first moved

omit declarations in
theorem does_property (behaves : grammar.Behaves) (target : Shape) (canAssign : Bool)
    (orderly : Orderly state) :
    Does (grammar.property target canAssign) state fun _ last => Moves 1 1 state last := by
  unfold Grammar.property
  refine does_bind (does_pass (orderly.still 1) fun name first moved => ?_)
  refine does_bind (does_name moved fun index second named front => ?_)
  refine does_bind (does_pass (front.orderly.still 1) fun assigns third moved => ?_)
  refine does_ite (fun _ => ?_) fun _ => ?_
  · refine does_bind (does_operand behaves .assignment moved fun value fourth moved => ?_)
    have stores : ∀ (shape : Shape) middle, Moves 1 2 second middle → Does (do
        emitOperand .setProperty index
        return shape) middle fun _ last => Moves 1 1 state last := by
      intro shape middle moved
      exact does_bind (does_named moved (named.grown moved.grows) rfl (by simp) (fun _ => rfl)
        (fun _ _ names => names) (by omega) (by omega) fun last moved =>
          does_pure (front.trans moved))
    refine does_ite (fun _ => ?_) fun _ => stores _ fourth moved
    exact does_bind (does_op moved rfl (by simp) (fun _ => rfl) (fun _ _ => trivial) (by omega)
      (by omega) fun last moved => stores _ last moved)
  · refine does_bind (does_pass moved fun calls fourth moved => ?_)
    refine does_ite (fun _ => ?_) fun _ => ?_
    · refine does_bind (does_arguments behaves moved fun given fifth moved => ?_)
      refine does_bind (does_pass moved fun _ sixth moved => ?_)
      obtain ⟨id, text, here, string⟩ := named.grown moved.grows
      refine does_bind (does_emit moved.orderly fun last written _ =>
        does_pure (front.trans (moved.trans ?_)))
      refine written.moves rfl (by simp) (fun _ _ _ => rfl) ?_ ?_ ?_ fun setting flags _ foresees _ =>
        ⟨(foresees.earlier written.grows).names here string, Int.natCast_nonneg _⟩
      all_goals
        simp only [Int.toNat_natCast]
        omega
    · exact does_bind (does_named moved (named.grown moved.grows) rfl (by simp) (fun _ => rfl)
        (fun _ _ names => names) (by omega) (by omega) fun last moved =>
          does_pure (front.trans moved))

omit operands declarations in
/-- What a binary operator is written as: an instruction for two values, perhaps negated. -/
theorem binaryCode_of {kind : TokenKind} {level : Level}
    (isBinary : Continuation.of? kind = some (.binary, level)) :
    ∃ op rest, binaryCode kind = op :: rest ∧ (rest = [] ∨ rest = [.not]) ∧
      op.isJump = false ∧ op ≠ .closure ∧
      (∀ (setting : Setting) (height : Nat),
        setting.body.OperandsFit setting.heap setting.registry height ⟨op, 0, 0⟩) ∧
      ((∀ body : Prototype, body.effect ⟨op, 0, 0⟩ = ⟨2, 1, 0⟩) ∨
        ∀ body : Prototype, body.effect ⟨op, 0, 0⟩ = ⟨2, 2, 1⟩) := by
  cases kind <;> cases isBinary
  all_goals
    refine ⟨_, _, rfl, ?_, rfl, by simp, fun _ _ => trivial, ?_⟩
    · simp
    · first
        | exact Or.inl fun _ => rfl
        | exact Or.inr fun _ => rfl

omit declarations in
theorem does_continuation (behaves : grammar.Behaves) (left : Shape) (canAssign : Bool)
    (level : Level) (continuation : Continuation)
    (operator : ∃ strength, Continuation.of? state.cursor.previous.kind = some (continuation, strength))
    (orderly : Orderly state) :
    Does (grammar.continuation left canAssign level continuation) state fun _ last =>
      Moves 1 1 state last := by
  unfold Grammar.continuation
  cases continuation with
  | call => exact does_call behaves left orderly
  | property => exact does_property behaves left canAssign orderly
  | binary =>
    obtain ⟨_, isBinary⟩ := operator
    obtain ⟨op, rest, code, tail, plain, other, operands, effect⟩ := binaryCode_of isBinary
    refine does_ran rfl ?_
    dsimp only
    rw [code]
    refine does_bind (does_operand behaves level.tighter (orderly.still 1) fun _ first moved => ?_)
    -- two values are left before the first instruction, and one behind it
    let inv : List Opcode → State → Prop := fun left middle =>
      (left = op :: rest ∧ Moves 1 2 state middle) ∨
        ((left = [] ∨ left = [.not]) ∧ Moves 1 1 state middle)
    have loop : Does (forIn (op :: rest) PUnit.unit fun op _ => do
        emit op
        pure (ForInStep.yield PUnit.unit) : Compile PUnit) first fun _ => inv [] := by
      refine does_for (fun item left middle holds => ?_) _ (Or.inl ⟨rfl, moved⟩)
      rcases holds with ⟨same, moved⟩ | ⟨same, moved⟩
      · cases same
        rcases effect with effect | effect
        · exact does_op moved plain other effect operands (by omega) (by omega)
            fun last moved => Or.inr ⟨tail, moved⟩
        · exact does_op moved plain other effect operands (by omega) (by omega)
            fun last moved => Or.inr ⟨tail, moved⟩
      · obtain ⟨rfl, rfl⟩ : item = .not ∧ left = [] := by simpa using same
        exact does_op moved rfl (by simp) (fun _ => rfl) (fun _ _ => trivial) (by omega) (by omega)
          fun last moved => Or.inr ⟨Or.inl rfl, moved⟩
    refine does_bind (loop.mono fun _ last holds => does_pure ?_)
    rcases holds with ⟨same, _⟩ | ⟨_, moved⟩
    · cases same
    · exact moved
  | and => exact does_shortCircuit behaves left .and (Or.inl rfl) orderly
  | or => exact does_shortCircuit behaves left .or (Or.inr rfl) orderly

theorem does_parseOperand (behaves : grammar.Behaves) (level : Level) (orderly : Orderly state) :
    Does (grammar.parseOperand level) state fun _ last => Moves 0 1 state last := by
  unfold Grammar.parseOperand
  dsimp only
  refine does_andThen (fun _ origin => ?_) (does_pass (orderly.still 0) fun _ first moved => ?_)
  · refine Keeps.andThen inferInstance fun token => ?_
    split <;> infer_instance
  refine does_ran rfl ?_
  split
  · exact does_bind (does_error moved.orderly.calm)
  · next opening isOpening =>
    let inv : Shape → State → Prop := fun _ middle => Moves 0 1 state middle
    refine does_bind ((does_opening behaves _ opening moved.orderly isOpening).mono fun left second more => ?_)
    refine does_seq inv (does_iterate inv (fun shape round holds => ?_) grammar.bound left
      (moved.trans more)) fun shape middle moved => ?_
    · have moved : Moves 0 1 state round := holds
      refine does_ran rfl ?_
      split
      · exact does_pure moved
      · next continuation strength isContinuation =>
        refine does_ite (fun _ => ?_) fun _ => does_pure moved
        have inside : round.cursor.here.kind ≠ .finish := by
          intro isFinish
          rw [isFinish] at isContinuation
          cases isContinuation
        have passes : Does advance round fun _ last =>
            Moves 0 1 state last ∧ last.cursor.previous = round.cursor.here :=
          (does_pass moved fun _ _ moved => moved).and
            (does_advance moved.orderly.calm inside fun _ same => same)
        refine does_bind (passes.mono fun _ passed holds => ?_)
        obtain ⟨moved, previous⟩ := holds
        refine does_bind ((does_continuation behaves shape _ strength continuation
          ⟨strength, by rw [previous]; exact isContinuation⟩ moved.orderly).mono ?_)
        exact fun _ last more => does_pure (moved.trans more)
    · refine does_bind (does_pass moved fun assigns last moved => ?_)
      exact does_ite (fun _ => does_bind (does_error moved.orderly.calm)) fun _ => does_pure moved

end Productions

end ScriptMachine.Compiler
