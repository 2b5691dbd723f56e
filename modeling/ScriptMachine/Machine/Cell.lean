import ScriptMachine.Machine.Arena

set_option autoImplicit false

/- Captured variables: opening a cell for a stack slot, and closing cells when their slots go
away. -/
namespace ScriptMachine.Machine

/-- Files an open cell behind those of higher slots. -/
def insertCell (slot : Nat) (cell : ObjectId) :
    List (Nat × ObjectId) → List (Nat × ObjectId)
  | [] => [(slot, cell)]
  | (other, id) :: rest =>
    if slot < other then (other, id) :: insertCell slot cell rest
    else (slot, cell) :: (other, id) :: rest

/-- The one open cell of a stack slot, allocated when there is none. -/
def captureSlot (slot : Nat) : Exec ObjectId := do
  match (← get).openCells.lookup slot with
  | some cell => return cell
  | none =>
    let cell ← allocating [] (Heap.newCell · slot)
    modify fun machine => { machine with openCells := insertCell slot cell machine.openCells }
    return cell

/-- Closes the cells at the front of a list whose slots are not below `fromSlot`. The frame
that owns a captured struct is about to go away, so the struct moves to the heap. -/
def closeCellsOf (fromSlot : Nat) : List (Nat × ObjectId) → Exec Unit
  | [] => return ()
  | (index, cell) :: rest => do
    if fromSlot ≤ index then
      let value ← heapValue [] (← slot index)
      modify fun machine =>
        { machine with
          openCells := rest
          heap := machine.heap.set cell (.cell (.closed value)) }
      closeCellsOf fromSlot rest

/-- Closes the open cells of all slots from `fromSlot` on. -/
def closeCells (fromSlot : Nat) : Exec Unit := do
  closeCellsOf fromSlot (← get).openCells

/-- What an aborted run leaves in a captured variable: the value of its slot, or nil for a
struct, which dies with its frame. -/
def abandonedValue (machine : Machine) (slot : Nat) : Value :=
  match machine.stack[slot]? with
  | some (.stack _) => .nil
  | some value => value
  | none => .nil

/-- The machine without stack, frames and open cells. Closures that outlive the aborted run
keep the values they captured. -/
def reset (machine : Machine) : Machine :=
  let heap := machine.openCells.foldl
    (fun heap (slot, cell) => heap.set cell (.cell (.closed (machine.abandonedValue slot))))
    machine.heap
  { machine with
    heap := heap.release machine.arenaBytes
    arenaBytes := 0
    openCells := []
    stack := #[]
    frames := [] }

/-- The cell that an upvalue of the innermost closure stands for. -/
def upvalueCell (frame : Frame) (index : Nat) : Exec (ObjectId × Cell) := do
  match (← get).heap.get? frame.closure with
  | some (.closure _ upvalues) =>
    let id ← given (upvalues[index]?.join)
    match (← get).heap.get? id with
    | some (.cell cell) => return (id, cell)
    | _ => goWrong
  | _ => goWrong

/-- The position, counted from the innermost, of the frame that a stack slot belongs to. -/
def frameOwning (machine : Machine) (slot : Nat) : Nat :=
  (machine.frames.findIdx? fun frame => frame.base ≤ slot).getD (machine.frames.length - 1)

/-- Assigns to a captured variable. Its own frame gets a copy of a struct while it is live;
afterwards a struct moves to the heap. -/
def assignCell (id : ObjectId) (cell : Cell) (value : Value) : Exec Unit := do
  match cell with
  | .onStack slot =>
    let value ← match value with
      | .stack node => do copyInto (frameOwning (← get) slot) (← struct node)
      | value => pure value
    setSlot slot value
  | .closed _ =>
    let value ← heapValue [] value
    modifyHeap fun heap => heap.set id (.cell (.closed value))

end ScriptMachine.Machine
