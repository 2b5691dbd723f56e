import ScriptMachine.Proofs.Compiler.Orderly

set_option autoImplicit false

/- Single steps of a quiet compilation: moving on, writing instructions and constants, and patching
jumps. -/
namespace ScriptMachine.Compiler

open Prototype (Setting Note Settles Sound Marked)

/-- Nothing has changed that matters for the code. -/
structure Idle (before after : State) : Prop where
  heap : after.heap = before.heap
  registry : after.registry = before.registry
  enclosing : after.enclosing = before.enclosing
  staged : after.staged = before.staged
  words : after.cursor.Worded ↔ before.cursor.Worded
  draft : before.draft.Alike after.draft

section Idling

variable {α : Type} {first second third state : State} {done : α → State → Prop}

theorem Idle.refl (state : State) : Idle state state :=
  ⟨rfl, rfl, rfl, rfl, .rfl, ⟨rfl, rfl, rfl, rfl, rfl, rfl⟩⟩

theorem Idle.trans (one : Idle first second) (two : Idle second third) : Idle first third where
  heap := two.heap.trans one.heap
  registry := two.registry.trans one.registry
  enclosing := two.enclosing.trans one.enclosing
  staged := two.staged.trans one.staged
  words := two.words.trans one.words
  draft :=
    { id := two.draft.id.trans one.draft.id
      kind := two.draft.kind.trans one.draft.kind
      name := two.draft.name.trans one.draft.name
      body := two.draft.body.trans one.draft.body
      scopeDepth := two.draft.scopeDepth.trans one.draft.scopeDepth
      locals := two.draft.locals.trans one.draft.locals }

instance (origin : State) : Indifferent (Idle origin) where
  report _ idle := idle.trans ⟨rfl, rfl, rfl, rfl, .rfl, ⟨rfl, rfl, rfl, rfl, rfl, rfl⟩⟩
  calm idle := idle.trans ⟨rfl, rfl, rfl, rfl, .rfl, ⟨rfl, rfl, rfl, rfl, rfl, rfl⟩⟩
  move {state} idle := idle.trans
    ⟨rfl, rfl, rfl, rfl, state.cursor.worded_moved, ⟨rfl, rfl, rfl, rfl, rfl, rfl⟩⟩
  settle {state} idle := idle.trans
    ⟨rfl, rfl, rfl, rfl, state.cursor.worded_settled, ⟨rfl, rfl, rfl, rfl, rfl, rfl⟩⟩
  draft alike idle := idle.trans ⟨rfl, rfl, rfl, rfl, .rfl, alike⟩

theorem keeps_idle {change : State → State} {origin : State}
    (idle : ∀ state, Idle state (change state)) :
    Keeps (Idle origin) (modify change : Compile Unit) :=
  keeps_modify fun state reached => reached.trans (idle state)

theorem Draft.Alike.grows {before after : Draft} (alike : before.Alike after) :
    before.Grows 0 after where
  id := alike.id
  kind := alike.kind
  scopeDepth := alike.scopeDepth
  name := by rw [alike.body]
  arity := by rw [alike.body]
  isMethod := by rw [alike.body]
  constants := by simp only [alike.body, List.prefix_rfl]
  captures := by simp only [alike.body, List.prefix_rfl]
  layouts := by simp only [alike.body, List.prefix_rfl]
  count := Nat.zero_le _
  newer := by simp
  older := by
    have same := alike.locals
    rw [← List.forall₂_eq_eq_eq, List.forall₂_map_left_iff, List.forall₂_map_right_iff] at same
    refine same.flip.imp fun old new equal => ?_
    simp only [Prod.mk.injEq] at equal
    exact ⟨equal.1, equal.2.1, fun captured => equal.2.2.trans captured⟩

theorem Idle.grows (idle : Idle first second) : Grows 0 first second where
  draft := idle.draft.grows
  enclosing := by
    rw [idle.enclosing]
    exact List.forall₂_same.mpr fun draft _ => .refl draft
  heap id _ := by rw [idle.heap]
  structs id type known := by
    rw [State.struct?, idle.registry, idle.staged]
    exact known
  methods := by simp only [idle.staged, List.prefix_rfl]
  registry := idle.registry

theorem Draft.Alike.orderly {before after : Draft} {heap : Heap} (alike : before.Alike after)
    (orderly : before.Orderly heap) : after.Orderly heap where
  lined := by rw [alike.body]; exact orderly.lined
  settled := alike.grows.settled orderly.settled
  filed := by rw [alike.body]; exact orderly.filed
  named := by rw [alike.body]; exact orderly.named
  rooted := alike.grows.rooted orderly.rooted
  nameless := alike.grows.nameless orderly.nameless

theorem Idle.adds (idle : Idle first second) (orderly : Orderly first) (calm : Calm second) :
    Adds 0 first second [] where
  orderly := by
    refine orderly.update calm idle.words.mp idle.heap idle.grows.structs ?_ (by rw [idle.staged])
      idle.draft.id idle.draft.kind idle.enclosing ?_ ?_ ?_
    · rw [idle.staged]
      exact orderly.bare
    · rw [idle.draft.body]
    · intro id member
      rw [idle.draft.body] at member
      exact Or.inl (mem_pool_of_references member)
    · exact idle.draft.orderly (orderly.each _ List.mem_cons_self)
  grows := idle.grows
  stages := idle.grows.stages idle.staged idle.words.mp
  code := by rw [idle.draft.body, List.append_nil]

/-- An action that changes nothing that matters. -/
theorem does_still {action : Compile α} [idles : Keeps (Idle state) action]
    [keeps : Keeps (Changes state) action] (orderly : Orderly state)
    (next : ∀ value later, Idle state later → Adds 0 state later [] → done value later) :
    Does action state done := by
  intro value later ran _
  have idle := idles.left (Idle.refl state)
  rw [ran] at idle
  exact next value later idle
    (idle.adds orderly (calm_of_changes (changes_of_ran ran) orderly.calm))

theorem does_idle {action : Compile α} [idles : Keeps (Idle state) action]
    [keeps : Keeps (Changes state) action] (orderly : Orderly state)
    (next : ∀ value later, Adds 0 state later [] → done value later) : Does action state done :=
  does_still orderly fun value later _ => next value later

end Idling

section Emitting

variable {state : State} {done : Unit → State → Prop}

/-- The state with another prototype in its draft. -/
def State.withBody (state : State) (body : Prototype) : State :=
  { state with draft := { state.draft with body } }

theorem Grows.withBody {body : Prototype} (name : body.name = state.draft.body.name)
    (arity : body.arity = state.draft.body.arity)
    (isMethod : body.isMethod = state.draft.body.isMethod)
    (constants : state.draft.body.constants.toList <+: body.constants.toList)
    (captures : body.captures = state.draft.body.captures)
    (layouts : state.draft.body.layouts.toList <+: body.layouts.toList) :
    Grows 0 state (state.withBody body) where
  draft :=
    { id := rfl
      kind := rfl
      scopeDepth := rfl
      name
      arity
      isMethod
      constants
      captures := by simp only [State.withBody, captures, List.prefix_rfl]
      layouts
      count := Nat.zero_le _
      newer := by simp
      older := ages_refl _ }
  enclosing := List.forall₂_same.mpr fun draft _ => .refl draft
  heap _ _ := rfl
  structs _ _ known := known
  methods := List.prefix_refl _
  registry := rfl

/-- Other code with the same constants keeps a draft in order, if no closure is lost. -/
theorem Orderly.withCode (orderly : Orderly state) {body : Prototype}
    (grows : Grows 0 state (state.withBody body))
    (constants : body.constants = state.draft.body.constants)
    (captures : body.captures = state.draft.body.captures)
    (lined : body.lines.size = body.code.size)
    (closures : ∀ index : Int, (⟨.closure, index, 0⟩ : Instruction) ∈ state.draft.body.code.toList →
      (⟨.closure, index, 0⟩ : Instruction) ∈ body.code.toList) :
    Orderly (state.withBody body) := by
  have before := orderly.each state.draft List.mem_cons_self
  have name : body.name = state.draft.body.name := grows.draft.name
  refine orderly.update orderly.calm (fun worded => worded) rfl (fun _ _ known => known) orderly.bare
    rfl rfl rfl rfl captures ?_
    ⟨lined, before.settled, fun index id here => ?_, fun id here => before.named id (name ▸ here),
      before.rooted, before.nameless⟩
  · intro id member
    refine Or.inl (mem_pool_of_references ?_)
    have changed : id ∈ body.references := member
    rwa [Prototype.references, name, constants] at changed
  · have known : state.draft.body.constants[index]? = some (.ref id) := constants ▸ here
    exact (before.filed index id known).imp_right (closures index)

/-- The state with one more instruction. -/
def State.written (state : State) (code : Instruction) : State :=
  state.withBody { state.draft.body with
    code := state.draft.body.code.push code
    lines := state.draft.body.lines.push state.cursor.previous.line }

theorem does_emitWith {op : Opcode} {a b : Int} (next : done () (state.written ⟨op, a, b⟩)) :
    Does (emitWith op a b) state done := by
  unfold emitWith
  exact does_ran rfl (does_modify next)

/-- An instruction is written behind the others. -/
theorem does_emit {op : Opcode} {a b : Int} (orderly : Orderly state)
    (next : ∀ later, Adds 0 state later [⟨op, a, b⟩] → later.draft.locals = state.draft.locals →
      done () later) :
    Does (emitWith op a b) state done := by
  refine does_emitWith (next _ ?_ rfl)
  have grows : Grows 0 state (state.written ⟨op, a, b⟩) :=
    .withBody rfl rfl rfl (List.prefix_refl _) rfl (List.prefix_refl _)
  have lined := (orderly.each state.draft List.mem_cons_self).lined
  refine ⟨orderly.withCode grows rfl rfl ?_ fun index member => ?_, grows,
    grows.stages rfl fun worded => worded, ?_⟩
  · rw [Array.size_push, Array.size_push, lined]
  · rw [Array.toList_push]
    exact List.mem_append_left _ member
  · exact Array.toList_push

/-- The callee is among the locals that can be read. -/
theorem Foresees.nonempty {setting : Setting} {flags : List Bool}
    (foresees : Foresees setting flags state) (orderly : Orderly state) : 0 < flags.length := by
  obtain ⟨callee, member, outermost⟩ := (orderly.each state.draft List.mem_cons_self).rooted
  have visible : callee ∈ state.draft.visible :=
    List.mem_filter.mpr ⟨member, by rw [outermost, Option.isSome_some]⟩
  rw [foresees.flags.length_eq]
  exact List.length_pos_of_mem visible

/-- One instruction that neither jumps nor makes a closure. -/
theorem Adds.moves {later : State} {code : Instruction} {taken given needs drops adds : Nat}
    (written : Adds 0 state later [code]) (plain : code.op.isJump = false)
    (other : code.op ≠ .closure)
    (effect : ∀ setting flags, Foresees setting flags later →
      setting.body.effect code = ⟨needs, drops, adds⟩)
    (enough : needs ≤ taken) (few : drops ≤ taken) (balance : given = taken - drops + adds)
    (operands : ∀ setting flags height, Foresees setting flags later → flags.length ≤ height →
      setting.body.OperandsFit setting.heap setting.registry (height + taken) code) :
    Moves taken given state later := by
  refine ⟨[code], written, fun setting flags foresees known height above => ?_⟩
  have effect := effect setting flags foresees
  refine Prototype.settles_plain plain other (fun _ => foresees.nonempty written.orderly) ?_ ?_
    (operands setting flags height foresees above) ?_
  all_goals rw [effect]
  all_goals dsimp only
  all_goals omega

theorem does_emitOperand {op : Opcode} {a : Int} {taken given needs drops adds : Nat}
    (orderly : Orderly state) (plain : op.isJump = false) (other : op ≠ .closure)
    (effect : ∀ body : Prototype, body.effect ⟨op, a, 0⟩ = ⟨needs, drops, adds⟩)
    (enough : needs ≤ taken) (few : drops ≤ taken) (balance : given = taken - drops + adds)
    (operands : ∀ later setting flags height, Grows 0 state later →
      Foresees setting flags later → flags.length ≤ height →
      setting.body.OperandsFit setting.heap setting.registry (height + taken) ⟨op, a, 0⟩)
    (next : ∀ later, Moves taken given state later → done () later) :
    Does (emitOperand op a) state done := by
  refine does_emit orderly fun later written _ => next later ?_
  exact written.moves plain other (fun setting _ _ => effect setting.body) enough few balance
    fun setting flags height => operands later setting flags height written.grows

/-- An instruction without operands. -/
theorem does_simple {op : Opcode} {taken given needs drops adds : Nat} (orderly : Orderly state)
    (plain : op.isJump = false) (other : op ≠ .closure)
    (effect : ∀ body : Prototype, body.effect ⟨op, 0, 0⟩ = ⟨needs, drops, adds⟩)
    (enough : needs ≤ taken) (few : drops ≤ taken) (balance : given = taken - drops + adds)
    (operands : ∀ (setting : Setting) (height : Nat),
      setting.body.OperandsFit setting.heap setting.registry height ⟨op, 0, 0⟩)
    (next : ∀ later, Moves taken given state later → done () later) :
    Does (emit op) state done :=
  does_emitOperand orderly plain other effect enough few balance
    (fun _ setting _ _ _ _ _ => operands setting _) next

/-- Behind a return, control never arrives. -/
theorem does_return {given : Nat} (orderly : Orderly state)
    (next : ∀ later, Moves 1 given state later → done () later) :
    Does (emit .return) state done := by
  refine does_emit orderly fun later written _ => next later ?_
  refine ⟨_, written, fun setting flags foresees known height above => ?_⟩
  apply Prototype.settles_one
  · exact ⟨by simp [Prototype.effect], trivial, by simp, by simp, by simp⟩
  · simp [Opcode.leaves]
  · simp [Opcode.isJump]

end Emitting

section Jumps
variable {first state : State}

/-- A jump whose target is not known yet. -/
theorem does_emitJump {op : Opcode} {done : Nat → State → Prop} (orderly : Orderly state)
    (next : ∀ later, Adds 0 state later [⟨op, -1, 0⟩] →
      done state.draft.body.code.size later) : Does (emitJump op) state done := by
  unfold emitJump
  refine does_bind (does_position ?_)
  refine does_bind (does_emit orderly fun later written _ => ?_)
  exact does_pure (next later written)

theorem modify_behind {α : Type} (front rest : List α) (item : α) (change : α → α) :
    (front ++ item :: rest).modify front.length change = front ++ change item :: rest := by
  induction front with
  | nil => rfl
  | cons first front ih => simp [ih]

/-- The jump at a position of the code is made to lead behind it. -/
theorem does_patchJump {op : Opcode} {a : Int} {added jump : Nat} {front rest : List Instruction}
    {done : Unit → State → Prop} (adds : Adds added first state (front ++ ⟨op, a, 0⟩ :: rest))
    (place : jump = first.draft.body.code.size + front.length) (other : op ≠ .closure)
    (next : ∀ later, Grows 0 state later →
      Adds added first later (front ++ ⟨op, state.draft.body.code.size, 0⟩ :: rest) →
      done () later) :
    Does (patchJump jump) state done := by
  let patched : Prototype := { state.draft.body with
    code := state.draft.body.code.modify jump fun code =>
      { code with a := state.draft.body.code.size } }
  have split : state.draft.body.code.toList
      = (first.draft.body.code.toList ++ front) ++ ⟨op, a, 0⟩ :: rest := by
    rw [adds.code, List.append_assoc]
  have written : patched.code.toList = (first.draft.body.code.toList ++ front)
      ++ ⟨op, state.draft.body.code.size, 0⟩ :: rest := by
    have length : jump = (first.draft.body.code.toList ++ front).length := by simp [place]
    rw [Array.toList_modify, split, length, modify_behind]
  have grows : Grows 0 state (state.withBody patched) :=
    .withBody rfl rfl rfl (List.prefix_refl _) rfl (List.prefix_refl _)
  have whole : Grows added first (state.withBody patched) := by
    simpa using adds.grows.trans grows
  refine does_modify (next (state.withBody patched) grows ⟨?_, whole,
    adds.stages.trans adds.grows (grows.stages rfl fun worded => worded), ?_⟩)
  · refine adds.orderly.withCode grows rfl rfl ?_ fun index member => ?_
    · rw [Array.size_modify]
      exact (adds.orderly.each _ List.mem_cons_self).lined
    · rw [split, List.mem_append, List.mem_cons] at member
      rw [written, List.mem_append, List.mem_cons]
      refine member.imp_right (Or.imp_left fun same => ?_)
      cases same
      exact absurd rfl other
  · rw [← List.append_assoc]
    exact written
end Jumps

section Constants

variable {state : State}

/-- A string is no draft, and leads to nothing else. -/
theorem Orderly.string_apart (orderly : Orderly state) {id : ObjectId} {text : Text}
    (string : state.heap.get? id = some (.string text)) :
    ∀ other, Heap.Reaches state.heap.objects [id] other →
      (state.heap.get? other).isSome = true ∧ ∀ draft ∈ state.drafts, draft.id ≠ other := by
  intro other reached
  have same : other = id := reached.of_bare string rfl
  subst same
  refine ⟨by rw [string]; rfl, fun draft member isDraft => ?_⟩
  have placeholder := orderly.drafts draft member
  rw [isDraft, string] at placeholder
  cases placeholder

/-- A constant is in the pool already, or is filed behind the others. -/
theorem does_makeConstant_raw {value : Value} {done : Int → State → Prop} (calm : Calm state)
    (known : ∀ index : Nat, state.draft.body.constants[index]? = some value → done index state)
    (new : done state.draft.body.constants.size (state.withBody
      { state.draft.body with constants := state.draft.body.constants.push value })) :
    Does (makeConstant value) state done := by
  have pushed : Does (modifyBody fun body => { body with constants := body.constants.push value })
      state fun _ later => done state.draft.body.constants.size later := does_modify new
  unfold makeConstant
  refine does_ran rfl ?_
  dsimp only
  split
  · next index found =>
    obtain ⟨id, isRef, here⟩ := Option.bind_eq_some_iff.mp found
    obtain ⟨inside, same, _⟩ := Array.findIdx?_eq_some_iff_getElem.mp here
    refine does_pure (known index ?_)
    have other : state.draft.body.constants[index].object? = some id := by simpa using same
    rw [Array.getElem?_eq_getElem inside]
    generalize state.draft.body.constants[index] = constant at other
    cases constant <;> cases value <;> simp_all [Value.object?]
  · refine does_ite (fun _ => ?_) fun _ => does_bind (pushed.mono fun _ _ => does_pure)
    exact does_bind (does_error calm)

theorem mem_references_push {body : Prototype} {value : Value} {id : ObjectId}
    (member : id ∈ Prototype.references { body with constants := body.constants.push value }) :
    id ∈ body.references ∨ value.object? = some id := by
  rw [Prototype.references, Array.toList_push, List.filterMap_append, ← List.append_assoc,
    List.mem_append] at member
  exact member.imp_right fun new => by simpa using new

/-- A string or a number is filed among the constants. -/
theorem does_makeConstant {value : Value} {done : Int → State → Prop} (orderly : Orderly state)
    (strings : ∀ id, value.object? = some id → ∃ text, state.heap.get? id = some (.string text))
    (next : ∀ (index : Nat) later, Adds 0 state later [] → later.heap = state.heap →
      later.draft.body.constants[index]? = some value → done index later) :
    Does (makeConstant value) state done := by
  have before := orderly.each state.draft List.mem_cons_self
  have grows : Grows 0 state (state.withBody
      { state.draft.body with constants := state.draft.body.constants.push value }) := by
    refine .withBody rfl rfl rfl ?_ rfl (List.prefix_refl _)
    rw [Array.toList_push]
    exact List.prefix_append _ _
  refine does_makeConstant_raw orderly.calm ?_ ?_
  · intro index here
    exact next index state orderly.unchanged rfl here
  · refine next _ _ ⟨?_, grows, grows.stages rfl fun worded => worded, by simp [State.withBody]⟩ rfl ?_
    · refine orderly.update orderly.calm (fun worded => worded) rfl (fun _ _ known => known)
        orderly.bare rfl rfl rfl rfl rfl ?_
        ⟨before.lined, before.settled, fun index id here => ?_, before.named, before.rooted,
          before.nameless⟩
      · intro id member
        rcases mem_references_push member with old | new
        · exact Or.inl (mem_pool_of_references old)
        · obtain ⟨text, string⟩ := strings id new
          exact Or.inr (orderly.string_apart string)
      · have pushed : (state.draft.body.constants.push value)[index]? = some (.ref id) := here
        rw [Array.getElem?_push] at pushed
        split at pushed
        · cases pushed
          exact Or.inl (strings id rfl)
        · exact before.filed index id pushed
    · exact Array.getElem?_push_size

end Constants

section Allocation

variable {state : State}

/-- An object that drafts hold or refer to. -/
def Held (state : State) (id : ObjectId) : Prop :=
  (∃ draft ∈ state.drafts, draft.id = id) ∨ Heap.Reaches state.heap.objects state.pool id

theorem mem_roots_of_pool {id : ObjectId} (member : id ∈ state.pool) : id ∈ state.roots := by
  simp only [State.pool, State.drafts, List.flatMap_cons, List.mem_append] at member
  simp only [State.roots, Draft.roots, List.mem_append, List.mem_cons, List.mem_flatMap]
  rcases member with (inDraft | inEnclosing) | inMethods
  · exact Or.inl (Or.inl (Or.inr (Or.inr inDraft)))
  · obtain ⟨draft, inside, refers⟩ := List.mem_flatMap.mp inEnclosing
    exact Or.inl (Or.inr ⟨draft, inside, Or.inr refers⟩)
  · exact Or.inr inMethods

theorem mem_roots_of_draft {draft : Draft} (member : draft ∈ state.drafts) :
    draft.id ∈ state.roots := by
  simp only [State.roots, Draft.roots, List.mem_append, List.mem_cons, List.mem_flatMap]
  rcases List.mem_cons.mp member with rfl | inEnclosing
  · exact Or.inl (Or.inl (Or.inr (Or.inl rfl)))
  · exact Or.inl (Or.inr ⟨draft, inEnclosing, Or.inl rfl⟩)

theorem Orderly.held_present (orderly : Orderly state) {id : ObjectId} (held : Held state id) :
    ∃ object, state.heap.get? id = some object := by
  rcases held with ⟨draft, member, rfl⟩ | reached
  · exact ⟨_, orderly.drafts draft member⟩
  · exact Option.isSome_iff_exists.mp (orderly.present id reached)

/-- What drafts hold survives making room, and is not what is allocated next. -/
theorem Orderly.held_kept (orderly : Orderly state) (pinned : List ObjectId) (bytes : UInt64)
    {id : ObjectId} (held : Held state id) :
    (state.heap.prepared (fun _ => pinned ++ state.roots) bytes).get? id = state.heap.get? id ∧
      state.heap.nextId ≠ id := by
  obtain ⟨object, present⟩ := orderly.held_present held
  refine ⟨Heap.get?_prepared_of_reaches ?_, orderly.tidy.fresh present⟩
  rcases held with ⟨draft, member, rfl⟩ | reached
  · exact .root (List.mem_append_right _ (mem_roots_of_draft member))
  · exact reached.mono fun _ member => .root (List.mem_append_right _ (mem_roots_of_pool member))

/-- A heap in which what drafts hold is as it was. -/
theorem Orderly.withHeap (orderly : Orderly state) {heap : Heap} (tidy : heap.Tidy)
    (kept : ∀ id, Held state id → heap.get? id = state.heap.get? id) :
    Adds 0 state { state with heap } [] := by
  have reaches : ∀ id, Heap.Reaches heap.objects state.pool id →
      Heap.Reaches state.heap.objects state.pool id :=
    fun id => Heap.Reaches.transfer_back fun id reached => kept id (Or.inr reached)
  have grows : Grows 0 state { state with heap } :=
    { draft := .refl _
      enclosing := List.forall₂_same.mpr fun draft _ => .refl draft
      heap := fun id reached => kept id (Or.inr reached)
      structs := fun _ _ known => known
      methods := List.prefix_refl _
      registry := rfl }
  refine ⟨?_, grows, grows.stages rfl fun worded => worded, by simp⟩
  refine
    { calm := orderly.calm
      tidy
      drafts := ?_
      distinct := orderly.distinct
      present := ?_
      apart := fun draft member reached => orderly.apart draft member (reaches _ reached)
      each := ?_
      captures := orderly.captures
      bare := orderly.bare
      methods := ?_ }
  · intro draft member
    rw [kept draft.id (Or.inl ⟨draft, member, rfl⟩)]
    exact orderly.drafts draft member
  · intro id reached
    rw [kept id (Or.inr (reaches id reached))]
    exact orderly.present id (reaches id reached)
  · intro draft member
    refine (orderly.each draft member).transfer fun id refers => kept id (Or.inr (.root ?_))
    exact List.mem_append_left _ (List.mem_flatMap.mpr ⟨draft, member, refers⟩)
  · intro staged member
    obtain ⟨prototype, upvalues, body, closure, finished⟩ := orderly.methods staged member
    have rooted : Heap.Reaches state.heap.objects state.pool staged.method.closure :=
      .root (List.mem_append_right _ (List.mem_map_of_mem member))
    refine ⟨prototype, upvalues, body, (kept _ (Or.inr rooted)).trans closure, ?_⟩
    exact finished.grown grows (rooted.next closure List.mem_cons_self)

theorem does_allocating {α : Type} {pinned : List ObjectId}
    {action : (Unit → List ObjectId) → Heap.Action α} {done : α → State → Prop}
    (next : ∀ result heap, action (fun _ => pinned ++ state.roots) state.heap = .ok result heap →
      done result { state with heap }) : Does (allocating pinned action) state done := by
  intro result last ran _
  unfold allocating at ran
  split at ran
  · next given heap allocated =>
    cases ran
    exact next _ _ allocated
  · cases ran

theorem Orderly.linked (orderly : Orderly state) (pinned : List ObjectId) {object : Object}
    (unnamed : ∀ text, object ≠ .string text) (bytes : UInt64) :
    Adds 0 state { state with
      heap := (state.heap.prepared (fun _ => pinned ++ state.roots) bytes).link object } [] := by
  refine orderly.withHeap ((orderly.tidy.prepared _ _).link unnamed) fun id held => ?_
  obtain ⟨kept, apart⟩ := orderly.held_kept pinned bytes held
  rw [Heap.get?_link, Heap.prepared_nextId, if_neg apart, kept]

/-- An object that is no string is allocated. -/
theorem does_allocate {pinned : List ObjectId} {object : Object} {done : ObjectId → State → Prop}
    (orderly : Orderly state) (unnamed : ∀ text, object ≠ .string text)
    (next : ∀ later, Adds 0 state later [] → later.draft = state.draft →
      later.enclosing = state.enclosing → later.staged = state.staged →
      later.heap.get? state.heap.nextId = some object →
      (∀ id, Heap.Reaches state.heap.objects pinned id → (state.heap.get? id).isSome = true →
        later.heap.get? id = state.heap.get? id) →
      done state.heap.nextId later) :
    Does (allocating pinned (Heap.allocate · object)) state done := by
  refine does_allocating fun result heap allocated => ?_
  rw [Heap.allocate_eq] at allocated
  dsimp only at allocated
  split at allocated
  · cases allocated
  · cases allocated
    rw [Heap.prepared_nextId]
    refine next _ (orderly.linked pinned unnamed _) rfl rfl rfl ?_ fun id reached present => ?_
    · have linked := Heap.get?_link_self
        (state.heap.prepared (fun _ => pinned ++ state.roots) object.size.toUInt64) object
      rwa [Heap.prepared_nextId] at linked
    · obtain ⟨old, found⟩ := Option.isSome_iff_exists.mp present
      change ((state.heap.prepared _ _).link object).get? id = _
      rw [Heap.get?_link, Heap.prepared_nextId, if_neg (orderly.tidy.fresh found)]
      exact Heap.get?_prepared_of_reaches
        (reached.mono fun _ member => .root (List.mem_append_left _ member))

/-- The one string object with some contents. -/
theorem does_intern {text : Text} {done : ObjectId → State → Prop} (orderly : Orderly state)
    (next : ∀ id later, Adds 0 state later [] → later.draft = state.draft →
      later.heap.get? id = some (.string text) → done id later) :
    Does (allocating [] (Heap.intern · text)) state done := by
  refine does_allocating fun result heap interned => ?_
  cases filed : state.heap.interned[text]? with
  | some id =>
    rw [Heap.intern_of_filed _ filed] at interned
    cases interned
    exact next result state orderly.unchanged rfl (orderly.tidy.filed.mp filed)
  | none =>
    rw [Heap.intern_of_unfiled _ filed] at interned
    dsimp only at interned
    split at interned
    · cases interned
    · cases interned
      have unfiled := Heap.prepared_unfiled (fun _ => [] ++ state.roots) filed
        (Object.string text).size.toUInt64
      refine next _ _ (orderly.withHeap ((orderly.tidy.prepared _ _).intern unfiled)
        fun id held => ?_) rfl ?_
      · obtain ⟨kept, apart⟩ := orderly.held_kept [] (Object.string text).size.toUInt64 held
        rw [Heap.get?_file, Heap.prepared_nextId, if_neg apart, kept]
      · change ((state.heap.prepared _ _).file text).get? _ = _
        rw [Heap.get?_file, if_pos rfl]

/-- A name is filed among the constants. -/
theorem does_textConstant {text : Text} {done : Int → State → Prop} (orderly : Orderly state)
    (next : ∀ (index : Nat) (id : ObjectId) later, Adds 0 state later [] →
      later.draft.body.constants[index]? = some (.ref id) →
      later.heap.get? id = some (.string text) → done index later) :
    Does (textConstant text) state done := by
  unfold textConstant
  refine does_bind (does_intern orderly fun id middle allocated _ string => ?_)
  refine does_makeConstant allocated.orderly ?_ fun index later filed heap here => ?_
  · intro other named
    cases named
    exact ⟨text, string⟩
  · exact next index id later (allocated.trans filed) here (by rw [heap]; exact string)

end Allocation

section Foreseen

variable {setting : Setting} {flags : List Bool} {state : State}

theorem getElem?_of_prefix {α : Type} {old new : Array α} {index : Nat} {item : α}
    (begins : old.toList <+: new.toList) (here : old[index]? = some item) :
    new[index]? = some item := by
  obtain ⟨rest, split⟩ := begins
  rw [← Array.getElem?_toList] at here ⊢
  rw [← split, List.getElem?_append_left (List.getElem?_eq_some_iff.mp here).1]
  exact here

theorem Foresees.constant (foresees : Foresees setting flags state) {index : Nat} {value : Value}
    (here : state.draft.body.constants[index]? = some value) :
    setting.body.constant? index = some value := by
  rw [Prototype.constant?_natCast]
  exact getElem?_of_prefix foresees.constants here

/-- A captured local is marked. -/
theorem Foresees.marked (foresees : Foresees setting flags state) {slot : Nat} {found : Variable}
    (here : state.draft.visible.reverse[slot]? = some found) (captured : found.captured = true) :
    Marked flags slot := by
  have marks := List.rel_reverse foresees.flags
  obtain ⟨inside, same⟩ := List.getElem?_eq_some_iff.mp here
  have there : slot < flags.reverse.length := marks.length_eq ▸ inside
  rw [Marked, List.getElem?_eq_getElem there, Option.some.injEq]
  refine (List.forall₂_iff_get.mp marks).2 slot there inside ?_
  rw [List.get_eq_getElem, same]
  exact captured

/-- A name among the constants stays one. -/
theorem Foresees.names (foresees : Foresees setting flags state) {index : Nat} {id : ObjectId}
    {text : Text} (here : state.draft.body.constants[index]? = some (.ref id))
    (string : state.heap.get? id = some (.string text)) :
    setting.body.Names setting.heap index := by
  refine ⟨id, text, foresees.constant here, ?_⟩
  rw [Heap.string?, foresees.heap id (.root (Prototype.mem_references here)), string]

end Foreseen

end ScriptMachine.Compiler
