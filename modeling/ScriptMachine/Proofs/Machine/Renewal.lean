import ScriptMachine.Proofs.Compiler.Retaining
import ScriptMachine.Proofs.Compiler.Units
import ScriptMachine.Proofs.Heap.Plain
import ScriptMachine.Proofs.Machine.Underway

set_option autoImplicit false

/- Compilations between runs. A compilation allocates in the heap of a machine that may be in the
middle of a run. The run can go on afterwards, and when there is new code the machine can be reset
and run that, with all that it knew before. -/
namespace ScriptMachine.Machine

section Retained

variable {program : Program} {live : ObjectId → Prop} {shape : Shape} {machine : Machine} {heap : Heap}

theorem Data.bounded (data : Data program live [] shape machine) :
    machine.heap.Bounded machine.roots := by
  intro id reached
  obtain ⟨object, present, _⟩ := data.stored.sane (data.reached reached)
  exact data.stored.tidy.bounded present

/-- The data are in order in every heap that has kept what the machine has in use. -/
theorem Data.retained (data : Data program live [] shape machine) (tidy : heap.Tidy)
    (retains : Heap.Retains machine.roots machine.heap heap) :
    Data program (Heap.Reaches machine.heap.objects machine.roots) [] shape
      { machine with heap } := by
  have alike : ∀ {id old}, live id → Heap.Reaches machine.heap.objects machine.roots id →
      machine.heap.get? id = some old → ∃ new, heap.get? id = some new ∧ old.Alike new :=
    fun {id old} _ reached found => ⟨old, by rw [retains.kept id reached, found], .refl old⟩
  refine data.withHeap ⟨tidy, Nat.le_trans data.stored.grown retains.grown, fun reached => ?_,
    fun {id object other} here isCode found => ?_⟩ alike (fun id member _ => .root member)
    fun {slot id} member => ?_
  · obtain ⟨object, present, sane⟩ := data.stored.sane (data.reached reached)
    refine ⟨object, by rw [retains.kept _ reached, present], ?_⟩
    exact sane.transfer (fun other member _ => .next reached present member) alike
      (fun member => member) fun _ member => member
  · have below := Nat.lt_of_lt_of_le (program.tidy.bounded here) data.stored.grown
    exact data.stored.fixed here isCode (retains.old below found)
  · rw [retains.kept id (.root (mem_roots_of_cell member))]
    exact (data.cells member).2.2

theorem Sound.retained (sound : Sound program machine) (tidy : heap.Tidy)
    (retains : Heap.Retains machine.roots machine.heap heap) :
    Sound program { machine with heap } := by
  obtain ⟨live, shape, data, stacked⟩ := sound
  exact ⟨_, shape, data.retained tidy retains, stacked⟩

theorem Rested.retained (rested : Rested program machine) (tidy : heap.Tidy)
    (retains : Heap.Retains machine.roots machine.heap heap) :
    Rested program { machine with heap } := by
  obtain ⟨live, data⟩ := rested
  exact ⟨_, data.retained tidy retains⟩

/-- No cell is made but by the machine itself. -/
theorem Filed.retained (filed : Filed machine) (tidy : heap.Tidy)
    (retains : Heap.Retains machine.roots machine.heap heap)
    (cells : Heap.CellsOf machine.heap heap) : Filed { machine with heap } := by
  have kept : ∀ {id object}, id ∈ machine.roots → machine.heap.get? id = some object →
      heap.get? id = some object :=
    fun member present => by rw [retains.kept _ (.root member), present]
  refine ⟨tidy, fun {slot id} => ⟨fun found => filed.listed.mp (cells _ _ found), fun member => ?_⟩,
    filed.descending, fun found => ?_, fun found => ?_, filed.room⟩
  · exact kept (mem_roots_of_cell member) (filed.listed.mpr member)
  · obtain ⟨text, present⟩ := filed.globals found
    exact ⟨text, kept (mem_roots_of_globalName found) present⟩
  · obtain ⟨⟨text, isString⟩, host, isNative⟩ := filed.natives found
    exact ⟨⟨text, kept (mem_roots_of_nativeName found) isString⟩, host,
      kept (mem_roots_of_native found) isNative⟩

theorem Coded.retained {id : ObjectId} {body : Prototype} (coded : Coded machine.heap id body)
    (retains : Heap.Retains machine.roots machine.heap heap) (member : id ∈ machine.roots) :
    Coded heap id body := by
  obtain ⟨prototype, upvalues, found, function⟩ := closurePrototype?_eq_some.mp coded.code
  have reached : Heap.Reaches machine.heap.objects machine.roots id := .root member
  have next : Heap.Reaches machine.heap.objects machine.roots prototype :=
    reached.next found List.mem_cons_self
  refine ⟨closurePrototype?_eq_some.mpr ⟨prototype, upvalues, ?_, ?_⟩, fun name isName => ?_⟩
  · rw [retains.kept id reached, found]
  · rw [retains.kept prototype next, function]
  · obtain ⟨object, present⟩ := coded.named name isName
    refine ⟨object, ?_⟩
    rw [retains.kept name (next.next function (List.mem_append_left _ (by simp [isName]))), present]

theorem Poised.retained (poised : Poised machine) (tidy : heap.Tidy)
    (retains : Heap.Retains machine.roots machine.heap heap)
    (cells : Heap.CellsOf machine.heap heap) : Poised { machine with heap } := by
  refine poised.recode (poised.filed.retained tidy retains cells) fun active coded => ?_
  obtain ⟨frame, member, rfl⟩ := List.mem_map.mp active
  exact coded.retained retains (mem_roots_of_frame member)

theorem Underway.retained (underway : Underway machine)
    (retains : Heap.Retains machine.roots machine.heap heap) : Underway { machine with heap } := by
  intro frame member
  refine (underway frame member).recode fun coded => coded.retained retains ?_
  obtain ⟨owner, inFrames, rfl⟩ := List.mem_map.mp member
  exact @mem_roots_of_frame machine owner inFrames

end Retained

section Registries

variable {program : Program} {live : ObjectId → Prop} {shape : Shape} {machine : Machine}

/-- The methods of a machine are those of its program. -/
theorem Data.coherent (data : Data program live [] shape machine)
    (coherent : program.registry.Coherent program.heap) :
    machine.registry.Coherent machine.heap := by
  rw [data.registry]
  refine coherent.transfer fun member serves => ?_
  obtain ⟨prototype, body, isClosure, isFunction, rest⟩ := serves
  obtain ⟨object, here, sane⟩ := data.stored.sane (data.methods _ member).1
  cases data.stored.fixed isClosure rfl here
  obtain ⟨inner, here', _⟩ := data.stored.sane sane.1
  cases data.stored.fixed isFunction rfl here'
  exact ⟨prototype, body, here, here', rest⟩

end Registries

section Renewed

/-- An object as a compilation leaves it. -/
def Emitted (heap : Heap) (registry : Registry) : Object → Prop
  | .string _ => True
  | .function body => body.Sound heap registry
  | .closure prototype upvalues => upvalues = #[] ∧ ∃ body,
      heap.get? prototype = some (.function body) ∧ body.captures = #[] ∧ body.Sound heap registry
  | _ => False

variable {program : Program} {live : ObjectId → Prop} {pending : List ObjectId} {shape : Shape}
  {machine : Machine} {heap : Heap} {registry : Registry} {id script : ObjectId} {object : Object}
  {cells : List (Nat × ObjectId)}

/-- What such an object refers to is of the same kind. -/
theorem Emitted.next (emitted : Emitted heap registry object) {other : ObjectId}
    (member : other ∈ object.references) :
    ∃ inner, heap.get? other = some inner ∧ Emitted heap registry inner := by
  cases object with
  | string _ => cases member
  | function body =>
    obtain ⟨_, _, kinds, sounds⟩ := emitted
    rcases kinds other member with ⟨text, isString⟩ | ⟨inner, isFunction⟩
    · exact ⟨_, isString, trivial⟩
    · exact ⟨_, isFunction, sounds member isFunction⟩
  | closure prototype upvalues =>
    obtain ⟨rfl, body, isFunction, _, sound⟩ := emitted
    obtain rfl : other = prototype := by simpa [Object.references] using member
    exact ⟨_, isFunction, sound⟩
  | cell _ | record _ _ | native _ => exact emitted.elim

/-- Among live objects it is well formed. -/
theorem Emitted.sane (emitted : Emitted heap registry object) {tidy : heap.Tidy}
    (here : heap.get? id = some object) (plain : object.Plain)
    (next : ∀ other ∈ object.references, live other) :
    Sane ⟨heap, registry, tidy⟩ live [] cells heap id object := by
  cases object with
  | string _ => trivial
  | function body =>
    obtain ⟨formed, _, _, _⟩ := emitted
    refine ⟨here, formed, fun name isName => next name ?_, fun value member => ?_⟩
    · exact List.mem_append_left _ (by simp [isName])
    · refine kept_of_node? (plain value member) fun other isRef => next other ?_
      apply List.mem_append_right
      exact List.mem_filterMap.mpr ⟨value, by simpa using member, by simp [isRef, Value.object?]⟩
  | closure prototype upvalues =>
    obtain ⟨rfl, body, isFunction, complete, _⟩ := emitted
    refine ⟨next prototype List.mem_cons_self, ⟨body, ?_, by rw [complete]; rfl⟩, by simp⟩
    rw [Heap.prototype?, isFunction]
  | cell _ | record _ _ | native _ => exact emitted.elim

theorem Registry.Includes.sized {before after : Registry} (includes : before.Includes after)
    {type : StructId} {count : Nat} (sized : before.Sized type count) : after.Sized type count := by
  obtain ⟨declared, known, rfl⟩ := sized
  obtain ⟨still, known', fields⟩ := includes known
  exact ⟨still, known', by rw [fields]⟩

theorem prototype?_eq_some {body : Prototype} :
    heap.prototype? id = some body ↔ heap.get? id = some (.function body) := by
  unfold Heap.prototype?
  split
  · next found => simp [found]
  · next other => exact ⟨fun isSome => (by cases isSome), fun found => absurd found (other body)⟩

/-- The heap of a machine shows the constants of its code as they were compiled. -/
theorem Stored.sameConstants (stored : Stored program live pending cells heap) {body : Prototype}
    (kept : ∀ value ∈ body.constants, value.Kept live) :
    body.SameConstants program.heap heap := by
  intro id member
  obtain ⟨object, here, sane⟩ := stored.sane (kept _ member)
  constructor
  · intro text isString
    unfold Heap.string? at isString ⊢
    split at isString
    · next there =>
      cases stored.fixed there rfl here
      rw [here]
      exact isString
    · cases isString
  · refine Option.ext fun inner => ?_
    rw [prototype?_eq_some, prototype?_eq_some]
    constructor
    · intro found
      cases found.symm.trans here
      exact sane.1
    · intro there
      rw [here, stored.fixed there rfl here]

/-- A live object is well formed for a program with more structs, whose heap is the present one. -/
theorem Stored.renew (stored : Stored program live pending cells heap) {tidy : heap.Tidy}
    (includes : program.registry.Includes registry) (here : heap.get? id = some object)
    (sane : Sane program live pending cells heap id object) :
    Sane ⟨heap, registry, tidy⟩ live pending cells heap id object := by
  cases object with
  | function body =>
    obtain ⟨_, formed, name, constants⟩ := sane
    exact ⟨here, formed.transfer (stored.sameConstants constants) includes, name, constants⟩
  | record type fields => exact ⟨Registry.Includes.sized includes sane.1, sane.2⟩
  | cell contents => cases contents <;> exact sane
  | string _ | closure _ _ | native _ => exact sane

/-- What is in use together with new code was in use before, or belongs to that code. -/
theorem Data.origin (data : Data program live [] shape machine)
    (code : ∀ id ∈ script :: registry.roots, live id ∨
      ∃ object, machine.heap.get? id = some object ∧ Emitted machine.heap registry object)
    (reached : Heap.Reaches machine.heap.objects (script :: { machine with registry }.roots) id) :
    live id ∨ ∃ object, machine.heap.get? id = some object ∧ Emitted machine.heap registry object := by
  let known : ObjectId → Prop := fun id => live id ∨
    ∃ object, machine.heap.get? id = some object ∧ Emitted machine.heap registry object
  refine (reached.closed (fun root member => ?_) fun other object isKnown present => ?_ : known id)
  · have split : root ∈ script :: registry.roots ∨ root ∈ machine.roots := by
      simp only [roots, List.mem_cons, List.mem_append] at member ⊢
      tauto
    exact split.elim (code root) fun inside => Or.inl (data.rooted inside)
  · intro next member
    rcases isKnown with isLive | ⟨_, found, emitted⟩
    · obtain ⟨_, found, sane⟩ := data.stored.sane isLive
      cases found.symm.trans present
      exact Or.inl (sane.named next member)
    · cases found.symm.trans present
      exact Or.inr (emitted.next member)

/-- A machine whose heap has got new code can be reset and run it. -/
theorem Data.renew (data : Data program live [] shape machine) (plain : machine.heap.Plain)
    (includes : program.registry.Includes registry) (coherent : registry.Coherent machine.heap)
    (code : ∀ id ∈ script :: registry.roots, live id ∨
      ∃ object, machine.heap.get? id = some object ∧ Emitted machine.heap registry object) :
    Lasting ⟨machine.heap, registry, data.stored.tidy⟩
      (Heap.Reaches machine.heap.objects (script :: { machine with registry }.roots))
      { machine with registry } := by
  let live' := Heap.Reaches machine.heap.objects (script :: { machine with registry }.roots)
  have rooted : ∀ {id}, id ∈ { machine with registry }.roots → live' id :=
    fun member => .root (List.mem_cons_of_mem _ member)
  refine ⟨⟨rfl, fun id member => ?_, fun id member => ?_, fun {name value} found => ?_,
    fun {name native} found => ?_⟩, ⟨data.stored.tidy, Nat.le_refl _, fun {id} reached => ?_,
    fun here _ found => ?_⟩, fun member => (data.cells member).2.2,
    fun member => data.size ▸ (data.cells member).1, fun member _ here => ?_⟩
  · obtain ⟨type, inside, isMethod⟩ := List.mem_flatMap.mp member
    obtain ⟨⟨name, method⟩, filed, rfl⟩ := List.mem_map.mp isMethod
    obtain ⟨_, _, _, _, _, _, _, serves⟩ :=
      (coherent.each type (Array.mem_toList_iff.mp inside)).declared filed
    obtain ⟨prototype, body, isClosure, isFunction, _⟩ := serves
    refine ⟨rooted (@mem_roots_of_registry { machine with registry } _ member), body, ?_⟩
    exact closurePrototype?_eq_some.mpr ⟨prototype, _, isClosure, isFunction⟩
  · exact rooted (@mem_roots_of_held { machine with registry } _ member)
  · refine ⟨rooted (@mem_roots_of_globalName { machine with registry } _ _ found),
      (data.globals found).2.imp fun id isRef _ => ?_⟩
    exact rooted (@mem_roots_of_global { machine with registry } _ _ (isRef ▸ found))
  · exact ⟨rooted (@mem_roots_of_nativeName { machine with registry } _ _ found),
      rooted (@mem_roots_of_native { machine with registry } _ _ found)⟩
  · rcases data.origin code reached with isLive | ⟨object, present, emitted⟩
    · obtain ⟨object, present, sane⟩ := data.stored.sane isLive
      refine ⟨object, present, (data.stored.renew includes present sane).transfer ?_ ?_
        (fun member => member) fun _ member => member⟩
      · exact fun other member _ => .next reached present member
      · exact fun _ _ found => ⟨_, found, .refl _⟩
    · exact ⟨object, present, emitted.sane present (plain _ _ present)
        fun other member => .next reached present member⟩
  · exact Option.some.inj (found.symm.trans here)
  · exact rooted (@mem_roots_of_value { machine with registry } _ _ _ here List.mem_cons_self)

end Renewed

section Pruned

/-- A program whose methods are in order, and whose functions leave room below their calls. -/
structure Proper (program : Program) : Prop where
  coherent : program.registry.Coherent program.heap
  spacious : ∀ {id : ObjectId} {body : Prototype},
    program.heap.get? id = some (.function body) → body.Spacious

/-- A program without the objects that some roots do not reach. -/
def pruned (program : Program) (roots : List ObjectId) : Program :=
  ⟨program.heap.collect roots, program.registry, program.tidy.collect roots⟩

variable {program : Program} {live : ObjectId → Prop} {pending : List ObjectId}
  {cells : List (Nat × ObjectId)} {heap : Heap} {id : ObjectId} {object : Object}
  {roots : List ObjectId} {machine : Machine}

theorem Sane.pruned (sane : Sane program live pending cells heap id object) (isLive : live id)
    (reach : ∀ {id}, live id → Heap.Reaches program.heap.objects roots id) :
    Sane (pruned program roots) live pending cells heap id object := by
  have same : ∀ {id}, live id → (program.heap.collect roots).get? id = program.heap.get? id :=
    fun isLive => Heap.get?_collect_of_reaches (reach isLive)
  cases object with
  | function body =>
    obtain ⟨here, formed, name, constants⟩ := sane
    refine ⟨(same isLive).trans here, formed.transfer (fun other member => ?_) (Registry.Includes.refl _), name,
      constants⟩
    have kept : live other := constants _ member
    constructor
    · intro text isString
      change (program.heap.collect roots).string? other = some text
      rwa [Heap.string?, same kept]
    · change (program.heap.collect roots).prototype? other = program.heap.prototype? other
      rw [Heap.prototype?, same kept, Heap.prototype?]
  | cell contents => cases contents <;> exact sane
  | string _ | closure _ _ | record _ _ | native _ => exact sane

/-- What a program does not reach from what is in use is no concern of its machine. -/
theorem Lasting.pruned (lasting : Lasting program live machine)
    (reach : ∀ {id}, live id → Heap.Reaches program.heap.objects roots id) :
    Lasting (pruned program roots) live machine := by
  refine { lasting with stored := ⟨lasting.stored.tidy, ?_, fun {id} isLive => ?_, ?_⟩ }
  · change (program.heap.collect roots).nextId ≤ machine.heap.nextId
    rw [Heap.collect_nextId]
    exact lasting.stored.grown
  · obtain ⟨object, present, sane⟩ := lasting.stored.sane isLive
    exact ⟨object, present, sane.pruned isLive reach⟩
  · exact fun here => lasting.stored.fixed (Heap.get?_collect.mp here).1

end Pruned

section Compiled

open Compiler (Completes Registers)

variable {program : Program} {live : ObjectId → Prop} {shape : Shape} {machine : Machine} {heap : Heap}
  {registry : Registry} {tokens : List Token} {state : Compiler.State} {compiled : Compiler.Compiled}

/-- The end of a compilation fills in the script, which is none of the methods. -/
theorem serves_completed (completes : Completes registry tokens state heap compiled) {method : Method}
    {arity : Nat} (serves : method.Serves state.heap arity) : method.Serves heap arity := by
  obtain ⟨prototype, body, isClosure, isFunction, takes, complete, isMethod⟩ := serves
  have blank := completes.orderly.drafts state.draft List.mem_cons_self
  rw [completes.heap]
  refine ⟨prototype, body, ?_, ?_, takes, complete, isMethod⟩
  · refine (Heap.get?_set_of_ne fun same => ?_).trans isClosure
    rw [same, isClosure] at blank
    cases blank
  · refine (Heap.get?_set_of_ne fun same => ?_).trans isFunction
    rw [same, isFunction] at blank
    cases blank
    cases isMethod

/-- The registry of a unit that compiles is in order. -/
theorem coherent_completed (completes : Completes registry tokens state heap compiled)
    (before : registry.Coherent heap) (worded : (Compiler.Cursor.start tokens).Worded) :
    compiled.registry.Coherent heap := by
  have staged := completes.tables before.structs before.traits worded
  obtain ⟨committed, isCommitted, commits⟩ := staged.commits
  cases completes.committed.symm.trans isCommitted
  refine commits.coherent (completes.registered ▸ before) (staged.transfer fun _ _ => ?_)
  exact fun serves => serves_completed completes serves

theorem includes_completed (completes : Completes registry tokens state heap compiled) :
    registry.Includes compiled.registry := by
  intro id type known
  refine Compiler.knows_committed completes.committed id type ?_
  rw [← completes.registered] at known
  unfold Compiler.State.struct?
  rw [known]
  rfl

/-- What a unit has registered was registered before, or has been emitted by it. -/
theorem emitted_completed (completes : Completes registry tokens state heap compiled)
    (coherent : compiled.registry.Coherent heap) {id : ObjectId}
    (member : id ∈ compiled.script :: compiled.registry.roots) :
    id ∈ registry.roots ∨
      ∃ object, heap.get? id = some object ∧ Emitted heap compiled.registry object := by
  rcases List.mem_cons.mp member with rfl | isRoot
  · obtain ⟨body, present, sound⟩ := completes.script_sound
    exact Or.inr ⟨_, present, sound⟩
  · obtain ⟨type, inside, isMethod⟩ := List.mem_flatMap.mp isRoot
    obtain ⟨⟨name, method⟩, filed, rfl⟩ := List.mem_map.mp isMethod
    obtain ⟨struct, known⟩ := Array.getElem?_of_mem (Array.mem_toList_iff.mp inside)
    by_cases old : ∃ declared, registry.struct? struct = some declared ∧ (name, method) ∈ declared.methods
    · obtain ⟨declared, here, there⟩ := old
      exact Or.inl (Registry.mem_roots (Array.mem_of_getElem? here) there)
    · have registers : Registers registry compiled.registry method :=
        ⟨struct, type, name, known, filed, fun declared here there => old ⟨declared, here, there⟩⟩
      obtain ⟨prototype, upvalues, body, isClosure, isFunction, sound⟩ :=
        completes.method_sound registers
      obtain ⟨_, _, _, _, _, _, _, serves⟩ :=
        (coherent.each type (Array.mem_toList_iff.mp inside)).declared filed
      obtain ⟨_, _, isClosure', isFunction', _, complete, _⟩ := serves
      cases isClosure.symm.trans isClosure'
      cases isFunction.symm.trans isFunction'
      exact Or.inr ⟨_, isClosure, rfl, body, isFunction, complete, sound⟩

/-- A machine can be reset and run the script of a unit that has been compiled in its heap. -/
theorem Data.completed (data : Data program live [] shape machine) (proper : Proper program)
    (plain : heap.Plain) (worded : (Compiler.Cursor.start tokens).Worded)
    (ran : Compiler.compile machine.heap machine.registry machine.roots tokens
      = (heap, .ok compiled)) :
    ∃ program' live', Proper program' ∧
      Lasting program' live' { machine with heap, registry := compiled.registry } ∧
      live' compiled.script ∧
      ∃ body, heap.get? compiled.script = some (.function body) ∧ body.captures = #[] := by
  obtain ⟨retains, tidy⟩ := @Compiler.compile_retains machine.heap machine.roots machine.registry
    tokens data.stored.tidy data.bounded
  rw [ran] at retains tidy
  obtain ⟨state, completes⟩ := Compiler.completes_compile data.stored.tidy ran
  have before : machine.registry.Coherent heap := by
    refine (data.coherent proper.coherent).transfer fun member serves =>
      serves.transfer fun id reached => ?_
    refine retains.kept id (reached.mono fun root isRoot => ?_)
    rw [List.mem_singleton.mp isRoot]
    exact .root (mem_roots_of_registry member)
  have after := coherent_completed completes before worded
  have includes : program.registry.Includes compiled.registry :=
    data.registry ▸ includes_completed completes
  have retained := data.retained tidy retains
  have code : ∀ id ∈ compiled.script :: compiled.registry.roots,
      Heap.Reaches machine.heap.objects machine.roots id ∨
        ∃ object, heap.get? id = some object ∧ Emitted heap compiled.registry object :=
    fun id member => (emitted_completed completes after member).imp_left fun old =>
      .root (mem_roots_of_registry old)
  let roots := compiled.script :: { machine with heap, registry := compiled.registry }.roots
  refine ⟨pruned ⟨heap, compiled.registry, tidy⟩ roots, _, ⟨?_, fun {id body} present => ?_⟩,
    (retained.renew plain includes after code).pruned fun reached => reached,
    .root List.mem_cons_self, state.draft.body, ?_, completes.captures⟩
  · refine after.transfer fun member serves => serves.transfer fun id reached => ?_
    refine Heap.get?_collect_of_reaches (reached.mono fun root isRoot => ?_)
    rw [List.mem_singleton.mp isRoot]
    exact .root (List.mem_cons_of_mem _ (@mem_roots_of_registry
      { machine with heap, registry := compiled.registry } _ member))
  · obtain ⟨here, reached⟩ := Heap.get?_collect.mp present
    rcases retained.origin code reached with isLive | ⟨object, found, emitted⟩
    · obtain ⟨_, found, sane⟩ := retained.stored.sane isLive
      cases found.symm.trans here
      exact proper.spacious sane.1
    · cases found.symm.trans here
      exact Prototype.Sound.spacious emitted
  · rw [completes.script, completes.heap]
    exact completes.orderly.returned_here

end Compiled

end ScriptMachine.Machine
