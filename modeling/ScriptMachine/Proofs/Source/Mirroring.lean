import ScriptMachine.Proofs.Source.Resolution

set_option autoImplicit false
set_option synthInstance.maxSize 20000

/- Single steps of a compilation that is read at the same time, and what is asked of the productions
one level further down. -/
namespace ScriptMachine.Compiler

open Source (Reading Locals Scope Context Place Productions Form Laying)

variable {α β γ δ : Type} {first state later : State} {code more : List Instruction}

section Steps

variable {rest : α → Compile γ} {reading : Reading δ} {done : γ → δ → State → Prop}

/-- An action that writes nothing. -/
theorem follows_idle {action : Compile α} [idles : Keeps (Idle state) action]
    [rests : Keeps (Unmoved False state) action] [changes : Keeps (Changes state) action]
    [keeps : ∀ value origin, Keeps (Changes origin) (rest value)] (orderly : Orderly state)
    (next : ∀ value later, Idle state later → Rests state later → Comes state later [] →
      Follows (rest value) reading later done) :
    Follows (action >>= rest) reading state done :=
  follows_still orderly.calm (does_still orderly fun value later idle adds remains =>
    next value later idle remains.toRests (remains.comes adds))

/-- An instruction is written. -/
theorem follows_emit {op : Opcode} {a b : Int} {rest : Unit → Compile γ}
    [keeps : ∀ value origin, Keeps (Changes origin) (rest value)] (orderly : Orderly state)
    (next : ∀ later, Rests state later → Comes state later [⟨op, a, b⟩] →
      Follows (rest ()) reading later done) :
    Follows (emitWith op a b >>= rest) reading state done :=
  follows_still orderly.calm (does_emit orderly fun later adds _ remains =>
    next later remains.toRests (remains.comes adds))

theorem does_writes {op : Opcode} {a b : Int} (orderly : Orderly state) :
    Does (emitWith op a b) state fun _ last => Comes state last [⟨op, a, b⟩] := by
  have adds : Does (emitWith op a b) state fun _ last => Adds 0 state last [⟨op, a, b⟩] :=
    does_emit orderly fun _ adds _ => adds
  refine (adds.and (does_remains orderly.calm)).mono ?_
  rintro _ last ⟨adds, remains⟩
  exact remains.comes adds

/-- The last instruction of a production. -/
theorem follows_emitLast {op : Opcode} {a b : Int} {read : δ} {done : Unit → δ → State → Prop}
    (orderly : Orderly state)
    (ends : ∀ last, Rests state last → Comes state last [⟨op, a, b⟩] → done () read last) :
    Follows (emitWith op a b) (pure read) state done :=
  follows_last orderly.calm (does_emit orderly fun last adds _ remains =>
    ends last remains.toRests (remains.comes adds))

/-- A text is among the constants. -/
def Filed (state : State) (index : Nat) (text : Text) : Prop :=
  ∃ id, state.draft.body.constants[index]? = some (.ref id) ∧
    state.heap.get? id = some (.string text)

theorem Filed.grown {added index : Nat} {text : Text} (filed : Filed state index text)
    (grows : Grows added state later) : Filed later index text := by
  obtain ⟨id, here, string⟩ := filed
  refine ⟨id, getElem?_of_prefix grows.draft.constants here, ?_⟩
  rw [grows.heap id (.root (mem_pool_of_references (Prototype.mem_references here))), string]

theorem Filed.foretold {index : Nat} {text : Text} {context : Context}
    (filed : Filed state index text) (foretells : Foretells context state) :
    context.Files index text := by
  obtain ⟨id, here, string⟩ := filed
  refine ⟨id, getElem?_of_prefix foretells.sees.constants here, ?_⟩
  rw [Heap.string?, foretells.sees.heap id (.root (Prototype.mem_references here)), string]

theorem follows_text {text : Text} {rest : Int → Compile γ}
    [keeps : ∀ value origin, Keeps (Changes origin) (rest value)] (orderly : Orderly state)
    (next : ∀ (index : Nat) later, Rests state later → Comes state later [] →
      Filed later index text → Follows (rest index) reading later done) :
    Follows (textConstant text >>= rest) reading state done :=
  follows_still orderly.calm (does_textConstant orderly fun index id later adds here string remains =>
    next index later remains.toRests (remains.comes adds) ⟨id, here, string⟩)

end Steps

theorem Rests.expecting (rests : Rests state later) (expecting : Expecting state) :
    Expecting later := by
  unfold Expecting at *
  rw [rests.pending, rests.cursor]
  exact expecting

theorem Passed.expecting {token : Token} {kind : TokenKind} (passed : Passed token state later)
    (same : token.kind = kind) (incomplete : isComplete kind = false) : Expecting later :=
  Passes.expecting passed.toPasses (same ▸ incomplete)

/-- A compilation in order, at which the same structs are known as to the reading. -/
structure Meets (nested : Productions) (state : State) : Prop where
  orderly : Orderly state
  knows : state.knows = nested.known
  once : CapturesOnce state
  worded : state.cursor.Worded

section Meeting

variable {nested : Productions} {form : Form}

theorem Comes.meets (comes : Comes state later code) (meets : Meets nested state) :
    Meets nested later :=
  ⟨comes.orderly, comes.toStays.knows.trans meets.knows,
    capturesOnce_of_changes comes.changes meets.once,
    (worded_of_changes comes.changes).mpr meets.worded⟩

theorem Passed.meets {token : Token} (passed : Passed token state later)
    (meets : Meets nested state) : Meets nested later :=
  passed.comes.meets meets

theorem Builds.meets (builds : Builds form state later) (meets : Meets nested state) :
    Meets nested later := by
  obtain ⟨_, comes, _⟩ := builds
  exact comes.meets meets

end Meeting

/-- Productions whose code is that of the trees that are read. -/
structure Mirrors (grammar : Grammar) (nested : Productions) : Prop where
  bound : nested.bound = grammar.bound
  operand : ∀ {state : State} {level : Level}, Meets nested state → Expecting state →
    level.rank ≤ Level.unary.rank →
    Follows (grammar.operand level) (nested.operand level) state fun _ tree last =>
      Builds tree.Codes state last
  statement : ∀ {state : State}, Meets nested state → AtStatement state → Expecting state →
    Follows grammar.statement nested.statement state fun _ tree last =>
      Builds (tree.Codes · []) state last
  declaration : ∀ {state : State}, Meets nested state → AtStatement state → state.pending ≠ [] →
    Follows grammar.declaration nested.declaration state fun _ tree last =>
      Lays tree.Codes state last ∧ last.knows = tree.announces state.knows ∧
        (state.draft.atTopLevel = false → last.knows = state.knows)

section Nested

variable {grammar : Grammar} {nested : Productions} {rest : Shape → Compile γ}
  {behind : Source.Expression → Reading δ} {done : γ → δ → State → Prop}

theorem follows_operand {level : Level} (mirrors : Mirrors grammar nested)
    (meets : Meets nested state) (expecting : Expecting state)
    (low : level.rank ≤ Level.unary.rank)
    [keeps : ∀ value origin, Keeps (Changes origin) (rest value)]
    (next : ∀ shape tree later, Builds tree.Codes state later →
      Follows (rest shape) (behind tree) later done) :
    Follows (grammar.operand level >>= rest) (nested.operand level >>= behind) state done :=
  follows_bind ((mirrors.operand meets expecting low).mono next)

theorem follows_expression (mirrors : Mirrors grammar nested)
    (meets : Meets nested state) (expecting : Expecting state)
    [keeps : ∀ value origin, Keeps (Changes origin) (rest value)]
    (next : ∀ shape tree later, Builds tree.Codes state later →
      Follows (rest shape) (behind tree) later done) :
    Follows (grammar.expression >>= rest) (nested.expression >>= behind) state done :=
  follows_operand mirrors meets expecting (by decide) next

/-- A statement nested in another one. -/
theorem follows_inner {γ δ : Type} {rest : Unit → Compile γ} {behind : Source.Statement → Reading δ}
    {done : γ → δ → State → Prop} (mirrors : Mirrors grammar nested) (meets : Meets nested state)
    (resting : AtStatement state) (expecting : Expecting state)
    [keeps : ∀ value origin, Keeps (Changes origin) (rest value)]
    (next : ∀ tree later, Builds (tree.Codes · []) state later →
      Follows (rest ()) (behind tree) later done) :
    Follows (grammar.statement >>= rest) (nested.statement >>= behind) state done :=
  follows_bind ((mirrors.statement meets resting expecting).mono fun _ => next)

end Nested

end ScriptMachine.Compiler
