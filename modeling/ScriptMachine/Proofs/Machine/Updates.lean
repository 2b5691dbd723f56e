import ScriptMachine.Proofs.Machine.Data

set_option autoImplicit false

/- How the data of a machine stay in order when its heap, its stack or its arenas change. -/
namespace ScriptMachine.Machine

section Roots

variable {machine : Machine} {id : ObjectId}

theorem mem_roots_of_held (member : id ∈ machine.held) : id ∈ machine.roots := by
  simp only [roots, List.mem_append]
  tauto

theorem mem_roots_of_registry (member : id ∈ machine.registry.roots) : id ∈ machine.roots := by
  simp only [roots, List.mem_append]
  tauto

theorem mem_roots_of_value {index : Nat} {value : Value} (here : machine.stack[index]? = some value)
    (member : id ∈ machine.valueRoots value) : id ∈ machine.roots := by
  have found : id ∈ machine.stack.toList.flatMap machine.valueRoots :=
    List.mem_flatMap.mpr ⟨value, by simpa using Array.mem_of_getElem? here, member⟩
  simp only [roots, List.mem_append]
  tauto

theorem mem_roots_of_frame {frame : Frame} (member : frame ∈ machine.frames) :
    frame.closure ∈ machine.roots := by
  have found : frame.closure ∈ machine.frames.flatMap Frame.roots :=
    List.mem_flatMap.mpr ⟨frame, member, List.mem_cons_self⟩
  simp only [roots, List.mem_append]
  tauto

theorem mem_roots_of_arena {struct : StackStruct} (member : struct ∈ arenas machine.frames)
    (named : id ∈ struct.references) : id ∈ machine.roots := by
  obtain ⟨frame, inFrames, inArena⟩ := List.mem_flatMap.mp member
  have found : id ∈ machine.frames.flatMap Frame.roots := List.mem_flatMap.mpr
    ⟨frame, inFrames, List.mem_cons_of_mem _ (List.mem_flatMap.mpr ⟨struct, inArena, named⟩)⟩
  simp only [roots, List.mem_append]
  tauto

theorem mem_roots_of_globalName {value : Value} (here : machine.globals[id]? = some value) :
    id ∈ machine.roots := by
  have found := Std.TreeMap.mem_toList_iff_getElem?_eq_some.mpr here
  apply List.mem_append_left
  apply List.mem_append_left
  apply List.mem_append_right
  exact List.mem_flatMap.mpr ⟨_, found, List.mem_cons_self⟩

theorem mem_roots_of_global {name : ObjectId} (here : machine.globals[name]? = some (.ref id)) :
    id ∈ machine.roots := by
  have found := Std.TreeMap.mem_toList_iff_getElem?_eq_some.mpr here
  apply List.mem_append_left
  apply List.mem_append_left
  apply List.mem_append_right
  exact List.mem_flatMap.mpr ⟨_, found, by simp [Value.object?]⟩

theorem mem_roots_of_native {name : ObjectId} (here : machine.natives[name]? = some id) :
    id ∈ machine.roots := by
  have found := Std.TreeMap.mem_toList_iff_getElem?_eq_some.mpr here
  apply List.mem_append_left
  apply List.mem_append_right
  exact List.mem_flatMap.mpr ⟨_, found, by simp⟩

theorem mem_roots_of_nativeName {native : ObjectId} (here : machine.natives[id]? = some native) :
    id ∈ machine.roots := by
  have found := Std.TreeMap.mem_toList_iff_getElem?_eq_some.mpr here
  apply List.mem_append_left
  apply List.mem_append_right
  exact List.mem_flatMap.mpr ⟨_, found, List.mem_cons_self⟩

theorem mem_roots_of_cell {slot : Nat} (member : (slot, id) ∈ machine.openCells) :
    id ∈ machine.roots := by
  have found : id ∈ machine.openCells.map Prod.snd := List.mem_map.mpr ⟨_, member, rfl⟩
  simp only [roots, List.mem_append]
  tauto

end Roots

section Holding

variable {program : Program} {live live' : ObjectId → Prop} {pending pending' : List ObjectId}
  {shape : Shape} {machine : Machine} {frames : List Frame} {index : Nat} {value : Value}

/-- The object identifiers that a stack slot keeps alive. -/
def stackRoots (machine : Machine) : List ObjectId :=
  machine.stack.toList.flatMap machine.valueRoots

theorem mem_stackRoots {id : ObjectId} (here : machine.stack[index]? = some value)
    (member : id ∈ machine.valueRoots value) : id ∈ machine.stackRoots :=
  List.mem_flatMap.mpr ⟨value, by simpa using Array.mem_of_getElem? here, member⟩

theorem mem_roots_of_stackRoots {id : ObjectId} (member : id ∈ machine.stackRoots) :
    id ∈ machine.roots := by
  rw [stackRoots] at member
  simp only [roots, List.mem_append]
  tauto

theorem Fits.keep {struct : StackStruct} {sized : StructId → Nat → Prop}
    (fits : struct.Fits (Value.Kept live) sized)
    (rooted : ∀ id ∈ struct.references, live id → live' id) :
    struct.Fits (Value.Kept live') sized := by
  have named : ∀ id ∈ struct.references, live id :=
    StackStruct.Fits.references (fun _ kept => kept) struct fits
  refine StackStruct.Fits.narrow ?_ struct fits
    fun id member => rooted id member (named id member)
  intro value kept refs
  exact kept.imp fun id isRef _ => refs id isRef

theorem Data.struct (data : Data program live pending shape machine) {node : NodeId}
    (here : machine.stack[index]? = some (.stack node)) :
    ∃ struct, machine.node? node = some struct ∧ Owned machine.frames index node struct ∧
      struct.Fits (Value.Kept live) program.registry.Sized := by
  obtain ⟨struct, owned, fits⟩ := data.values here
  exact ⟨struct, owned.node? data.unique, owned, fits⟩

theorem mem_valueRoots_of_struct {node : NodeId} {struct : StackStruct} {id : ObjectId}
    (found : machine.node? node = some struct) (member : id ∈ struct.references) :
    id ∈ machine.valueRoots (.stack node) := by
  rw [valueRoots, found]
  exact member

/-- What a stack slot keeps alive is live. -/
theorem Data.live_of_stackRoots (data : Data program live pending shape machine) {id : ObjectId}
    (member : id ∈ machine.stackRoots) : live id := by
  obtain ⟨value, inStack, inValue⟩ := List.mem_flatMap.mp member
  obtain ⟨index, here⟩ := Array.mem_iff_getElem?.mp (Array.mem_toList_iff.mp inStack)
  cases value with
  | nil | bool _ | number _ => cases inValue
  | ref object =>
    rw [List.mem_singleton.mp inValue]
    exact data.values here
  | stack node =>
    obtain ⟨struct, found, _, fits⟩ := data.struct here
    rw [valueRoots, found] at inValue
    exact StackStruct.Fits.references (fun _ kept => kept) struct fits id inValue

/-- A value that stood in a slot may stay there when what the slot keeps alive stays live. -/
theorem Data.holds_keep (data : Data program live pending shape machine)
    (here : machine.stack[index]? = some value)
    (rooted : ∀ id ∈ machine.stackRoots, live id → live' id) :
    Holds program live' machine.frames index value := by
  have holds := data.values here
  cases value with
  | nil | bool _ | number _ => trivial
  | ref object => exact rooted object (mem_stackRoots here List.mem_cons_self) holds
  | stack node =>
    obtain ⟨struct, owned, fits⟩ := holds
    refine ⟨struct, owned, Fits.keep fits fun id member => ?_⟩
    exact rooted id (mem_stackRoots here (mem_valueRoots_of_struct (owned.node? data.unique) member))

theorem Holds.mono (holds : Holds program live frames index value) {higher : Nat}
    (above : index ≤ higher) : Holds program live frames higher value := by
  cases value with
  | nil | bool _ | number _ | ref _ => exact holds
  | stack node =>
    obtain ⟨struct, owned, fits⟩ := holds
    exact ⟨struct, owned.mono above, fits⟩

/-- A value that may be stored on the heap may stand in any slot. -/
theorem Kept.holds (kept : value.Kept live) : Holds program live frames index value := by
  cases value with
  | nil | bool _ | number _ => trivial
  | ref _ => exact kept
  | stack _ => exact kept.elim

end Holding

section HeapChange

variable {program : Program} {live live' : ObjectId → Prop} {pending pending' : List ObjectId}
  {shape : Shape} {machine : Machine} {heap : Heap}

theorem Linked.withHeap (linked : Linked program live machine) {openCells : List (Nat × ObjectId)}
    (rooted : ∀ id ∈ machine.roots, live id → live' id)
    (bodies : ∀ {id body}, live id → live' id → machine.heap.closurePrototype? id = some body →
      heap.closurePrototype? id = some body) :
    Linked program live' { machine with heap, openCells } where
  registry := linked.registry
  methods := by
    intro id member
    obtain ⟨isLive, body, here⟩ := linked.methods id member
    have isLive' := rooted id (mem_roots_of_registry (linked.registry ▸ member)) isLive
    exact ⟨isLive', body, bodies isLive isLive' here⟩
  held id member := rooted id (mem_roots_of_held member) (linked.held id member)
  globals := by
    intro name value here
    obtain ⟨liveName, kept⟩ := linked.globals here
    refine ⟨rooted name (mem_roots_of_globalName here) liveName, kept.imp fun id isRef => ?_⟩
    exact rooted id (mem_roots_of_global (isRef ▸ here))
  natives := by
    intro name id here
    obtain ⟨liveName, isLive⟩ := linked.natives here
    exact ⟨rooted name (mem_roots_of_nativeName here) liveName,
      rooted id (mem_roots_of_native here) isLive⟩

/-- The data stay in order with a heap that keeps what is in use, and with other open cells. -/
theorem Data.withCells (data : Data program live pending shape machine)
    {openCells : List (Nat × ObjectId)} (stored : Stored program live' pending' openCells heap)
    (alike : ∀ {id old}, live id → live' id → machine.heap.get? id = some old →
      ∃ new, heap.get? id = some new ∧ old.Alike new)
    (rooted : ∀ id ∈ machine.roots, live id → live' id)
    (descending : (openCells.map Prod.fst).Pairwise (· > ·))
    (cells : ∀ {slot id}, (slot, id) ∈ openCells →
      slot < shape.height ∧ live' id ∧ heap.get? id = some (.cell (.onStack slot))) :
    Data program live' pending' { shape with captured := openCells.map Prod.fst }
      { machine with heap, openCells } where
  toLinked := data.toLinked.withHeap rooted fun isLive isLive' =>
    data.stored.closurePrototype? stored alike isLive isLive'
  stored := stored
  calls := by
    refine List.forall₂_iff_get.mpr ?_
    obtain ⟨sameLength, each⟩ := List.forall₂_iff_get.mp data.calls
    refine ⟨sameLength, fun position inFrames inCalls => ?_⟩
    obtain ⟨isLive, body, base, ip⟩ := each position inFrames inCalls
    have isLive' := rooted _ (mem_roots_of_frame (List.get_mem _ _)) isLive
    exact ⟨isLive', data.stored.closurePrototype? stored alike isLive isLive' body, base, ip⟩
  captured := rfl
  descending := descending
  cells := cells
  size := data.size
  values := by
    intro index value here
    exact data.holds_keep here fun id member => rooted id (mem_roots_of_stackRoots member)
  fitting struct member :=
    Fits.keep (data.fitting struct member) fun id named => rooted id (mem_roots_of_arena member named)
  unique := data.unique
  numbered := data.numbered

theorem Data.withHeap (data : Data program live pending shape machine)
    (stored : Stored program live' pending' machine.openCells heap)
    (alike : ∀ {id old}, live id → live' id → machine.heap.get? id = some old →
      ∃ new, heap.get? id = some new ∧ old.Alike new)
    (rooted : ∀ id ∈ machine.roots, live id → live' id)
    (cells : ∀ {slot id}, (slot, id) ∈ machine.openCells →
      heap.get? id = some (.cell (.onStack slot))) :
    Data program live' pending' shape { machine with heap } := by
  have changed := data.withCells stored alike rooted (data.captured ▸ data.descending)
    fun {slot id} member => by
      obtain ⟨below, isLive, _⟩ := data.cells member
      exact ⟨below, rooted id (mem_roots_of_cell member) isLive, cells member⟩
  rwa [data.captured] at changed

end HeapChange

section StackChange

variable {program : Program} {live : ObjectId → Prop} {pending : List ObjectId} {shape : Shape}
  {machine : Machine} {value : Value}

theorem Data.push (data : Data program live pending shape machine)
    (holds : Holds program live machine.frames shape.height value) :
    Data program live pending { shape with height := shape.height + 1 }
      { machine with stack := machine.stack.push value } :=
  { data with
    cells := by
      intro slot id member
      obtain ⟨below, rest⟩ := data.cells member
      exact ⟨Nat.lt_succ_of_lt below, rest⟩
    size := by rw [Array.size_push, data.size]
    values := by
      intro index other here
      rw [Array.getElem?_push] at here
      split at here
      · next last =>
        cases here
        rw [last, data.size]
        exact holds
      · exact data.values here }

theorem Data.setSlot (data : Data program live pending shape machine) {index : Nat}
    (holds : Holds program live machine.frames index value) :
    Data program live pending shape
      { machine with stack := machine.stack.setIfInBounds index value } :=
  { data with
    size := by rw [Array.size_setIfInBounds, data.size]
    values := by
      intro place other here
      rw [Array.getElem?_setIfInBounds] at here
      split at here
      · next same =>
        split at here
        · cases here
          exact same ▸ holds
        · cases here
      · exact data.values here }

/-- The stack may be cut down to any size that leaves no open cell behind. -/
theorem Data.cut (data : Data program live pending shape machine) {stack : Array Value} {size : Nat}
    (isSize : stack.size = size)
    (same : ∀ {index : Nat} {value : Value}, stack[index]? = some value →
      machine.stack[index]? = some value)
    (clear : ∀ slot ∈ shape.captured, slot < size) :
    Data program live pending { shape with height := size } { machine with stack } :=
  { data with
    cells := by
      intro slot id member
      refine ⟨clear slot ?_, (data.cells member).2⟩
      rw [← data.captured]
      exact List.mem_map.mpr ⟨_, member, rfl⟩
    size := isSize
    values := fun here => data.values (same here) }

end StackChange

section FrameChange

variable {program : Program} {live : ObjectId → Prop} {pending : List ObjectId} {shape : Shape}
  {machine : Machine} {frames : List Frame}

theorem Data.withFrames (data : Data program live pending shape machine) {nextNode : NodeId}
    {arenaBytes : UInt64} (same : List.Forall₂ SameCall machine.frames frames)
    (values : ∀ {index : Nat} {value : Value}, machine.stack[index]? = some value →
      Holds program live frames index value)
    (fitting : ∀ struct ∈ arenas frames, struct.Fits (Value.Kept live) program.registry.Sized)
    (unique : StackStruct.Unique (nodeIds frames)) (numbered : ∀ id ∈ nodeIds frames, id < nextNode) :
    Data program live pending shape { machine with frames, nextNode, arenaBytes } :=
  { data with
    calls := by
      obtain ⟨sameLength, each⟩ := List.forall₂_iff_get.mp same
      obtain ⟨sameCount, runs⟩ := List.forall₂_iff_get.mp data.calls
      refine List.forall₂_iff_get.mpr ⟨sameLength ▸ sameCount, fun position inFrames inCalls => ?_⟩
      have before := runs position (sameLength ▸ inFrames) inCalls
      obtain ⟨closure, base, ip⟩ := each position (sameLength ▸ inFrames) inFrames
      exact ⟨closure ▸ before.live, closure ▸ before.body, base ▸ before.base, ip ▸ before.ip⟩
    values := values
    fitting := fitting
    unique := unique
    numbered := numbered }

end FrameChange

end ScriptMachine.Machine
