import ScriptMachine.Proofs.Heap.Retained
import ScriptMachine.Proofs.Machine.Underway

set_option autoImplicit false

/- The cells of captured variables. A variable that is captured has one open cell until its slot is
given up, the closures made in the meantime take that cell, and no cell is ever used for another
variable. A closure keeps the cells it was made with. -/
namespace ScriptMachine.Machine

/-- Closures have the cells that they had, and no identifier is used twice. -/
structure Steady (before after : Heap) : Prop where
  grown : before.nextId ≤ after.nextId
  closures : ∀ {id prototype : ObjectId} {upvalues : Array (Option ObjectId)},
    id < before.nextId → after.get? id = some (.closure prototype upvalues) →
    before.get? id = some (.closure prototype upvalues)

section Mild

variable {before middle after : Machine} {heap other later : Heap} {free : Licence}

theorem Steady.refl (heap : Heap) : Steady heap heap :=
  ⟨Nat.le_refl _, fun _ found => found⟩

theorem Steady.trans (first : Steady heap other) (second : Steady other later) :
    Steady heap later :=
  ⟨Nat.le_trans first.grown second.grown, fun below found =>
    first.closures below (second.closures (Nat.lt_of_lt_of_le below first.grown) found)⟩

theorem Steady.of_retains {roots : List ObjectId} (retains : Heap.Retains roots heap other) :
    Steady heap other :=
  ⟨retains.grown, fun below found => retains.old below found⟩

/-- Cells may be changed. -/
theorem Steady.setCell (steady : Steady heap other) (id : ObjectId) (contents : Cell) :
    Steady heap (other.set id (.cell contents)) := by
  refine ⟨steady.grown, fun below found => steady.closures below ?_⟩
  rw [Heap.get?_set] at found
  split at found
  · obtain ⟨_, _, isCell⟩ := Option.map_eq_some_iff.mp found
    cases isCell
  · exact found

/-- Where no cell is opened or closed, closures and open cells are as before. -/
theorem Touch.steady (touch : Touch free before after) (shut : ¬ free.cells) :
    Steady before.heap after.heap ∧ after.openCells = before.openCells := by
  cases touch with
  | aside aside =>
    rw [aside.heap]
    exact ⟨.refl _, aside.cells⟩
  | collect pinned =>
    refine ⟨⟨Nat.le_of_eq Heap.collect_nextId.symm, fun _ found => ?_⟩, rfl⟩
    exact (Heap.get?_collect.mp found).1
  | recount objects next _ =>
    refine ⟨⟨Nat.le_of_eq next.symm, fun _ found => ?_⟩, rfl⟩
    rw [Heap.get?] at found ⊢
    rwa [← objects]
  | link _ _ =>
    refine ⟨⟨Nat.le_succ _, fun below found => ?_⟩, rfl⟩
    rwa [Heap.get?_link, if_neg (Nat.ne_of_gt below)] at found
  | file _ =>
    refine ⟨⟨Nat.le_succ _, fun below found => ?_⟩, rfl⟩
    rwa [Heap.get?_file, if_neg (Nat.ne_of_gt below)] at found
  | @refill id old new present refills closures =>
    refine ⟨⟨Nat.le_refl _, fun {other _ _} below found => ?_⟩, rfl⟩
    by_cases same : id = other
    · subst same
      rw [Heap.get?_set_self present] at found
      cases refills with
      | record => cases found
      | closure prototype _ => exact absurd (closures _ _ rfl) shut
    · rwa [Heap.get?_set_of_ne same] at found
  | capture _ isFree => exact absurd isFree shut
  | close _ _ isFree => exact absurd isFree shut

theorem Touches.steady (touches : Touches free before after) (shut : ¬ free.cells) :
    Steady before.heap after.heap ∧ after.openCells = before.openCells := by
  induction touches with
  | refl => exact ⟨.refl _, rfl⟩
  | tail _ touch ih =>
    obtain ⟨steady, cells⟩ := Touch.steady touch shut
    exact ⟨ih.1.trans steady, cells.trans ih.2⟩

/-- An instruction that handles no cells leaves the open ones. -/
theorem Executes.steady {code : Instruction} (executes : Executes code before after)
    (mild : code.op.movesCells = false) :
    Steady before.heap after.heap ∧ after.openCells = before.openCells := by
  cases executes with
  | stays _ touches =>
    exact Touches.steady touches fun moves => by simp [licence, mild] at moves
  | jumps _ touches =>
    obtain ⟨steady, cells⟩ := Touches.steady touches id
    exact ⟨steady, cells⟩
  | assigns value _ touches _ =>
    obtain ⟨steady, cells⟩ := Touches.steady touches id
    exact ⟨steady.setCell _ _, cells⟩
  | stores value _ first _ second =>
    obtain ⟨steady, cells⟩ := Touches.steady first id
    obtain ⟨steady', cells'⟩ := Touches.steady second id
    exact ⟨steady.trans steady', cells'.trans cells⟩
  | calls _ begins =>
    obtain ⟨base, _, first, _, _, second⟩ := begins
    obtain ⟨steady, cells⟩ := Touches.steady first id
    obtain ⟨steady', cells'⟩ := Touches.steady second id
    exact ⟨steady.trans steady', cells'.trans cells⟩
  | returns isReturn _ _ =>
    rw [isReturn] at mild
    cases mild

end Mild

section Closing

variable {machine : Machine}

/-- The open cells of the slots from `fromSlot` on are closed, and no others. -/
structure Closes (fromSlot : Nat) (before after : Machine) : Prop where
  steady : Steady before.heap after.heap
  cells : after.openCells = before.openCells.dropWhile (fromSlot ≤ ·.1)

theorem leads_closes (fromSlot : Nat) (cells : List (Nat × ObjectId)) :
    ∀ {machine : Machine}, machine.openCells = cells →
      Leads (closeCellsOf fromSlot cells) machine (fun _ => Closes fromSlot machine)
        (fun after => Steady machine.heap after.heap) := by
  induction cells with
  | nil =>
    intro machine opened
    exact ⟨.refl _, by rw [opened]; rfl⟩
  | cons entry rest ih =>
    intro machine opened
    obtain ⟨index, cell⟩ := entry
    rw [closeCellsOf]
    by_cases reaches : fromSlot ≤ index
    · simp only [reaches, ↓reduceIte]
      refine Leads.after (fun _ (touches : Touches .none _ _) => (Touches.steady touches id).1)
        fun old middle first => ?_
      refine Leads.after (fun _ touches => (Touches.steady (first.trans touches) id).1)
        fun value later second => ?_
      obtain ⟨steady, same⟩ := Touches.steady (first.trans second) id
      rw [leads_bind, leads_modify]
      have closed := steady.setCell cell (.closed value)
      refine (ih rfl).mono (fun _ after closes => ⟨closed.trans closes.steady, ?_⟩)
        fun _ after => closed.trans after
      rw [closes.cells, opened, List.dropWhile_cons_of_pos (by simpa using reaches)]
    · simp only [reaches, ↓reduceIte]
      refine ⟨.refl _, ?_⟩
      rw [opened, List.dropWhile_cons_of_neg (by simpa using reaches)]

theorem leads_closeCells (fromSlot : Nat) :
    Leads (closeCells fromSlot) machine (fun _ => Closes fromSlot machine)
      (fun after => Steady machine.heap after.heap) :=
  leads_closes fromSlot _ rfl

theorem Closes.touches {fromSlot : Nat} {before middle after : Machine}
    (closes : Closes fromSlot before middle) (touches : Touches ⟨False, True⟩ middle after) :
    Closes fromSlot before after := by
  obtain ⟨steady, cells⟩ := Touches.steady touches id
  exact ⟨closes.steady.trans steady, cells.trans closes.cells⟩

/-- The end of a call closes the cells of its slots. -/
theorem leads_returning (site : Site) :
    Leads (finishCall site) machine (fun _ => Closes site.frame.base machine)
      (fun after => Steady machine.heap after.heap) := by
  have popped : ∀ {middle after : Machine}, Closes site.frame.base machine middle →
      Touches ⟨False, True⟩ { middle with frames := middle.frames.drop 1 } after →
      Closes site.frame.base machine after := by
    intro middle after closes touches
    have dropped : Closes site.frame.base machine
        { middle with frames := middle.frames.drop 1 } :=
      ⟨closes.steady, closes.cells⟩
    exact dropped.touches touches
  have handsBack : ∀ (result : Value) {middle : Machine}, Closes site.frame.base machine middle →
      Leads (do shrink site.frame.base; popFrame; push result; return Progress.running) middle
        (fun _ => Closes site.frame.base machine) (fun after => Steady machine.heap after.heap) :=
          by
    intro result middle closes
    have shrinks := closes.touches (.single (touch_shrink middle site.frame.base))
    refine leads_bind.mpr (leads_modify.mpr ?_)
    refine leads_bind.mpr (leads_popFrame fun after touches _ _ => ?_)
    have left := popped shrinks touches
    refine Leads.after (fun _ (touches : Touches ⟨False, True⟩ _ _) =>
      left.steady.trans (Touches.steady touches id).1) fun _ final touches => ?_
    exact left.touches touches
  unfold finishCall
  refine leads_bind.mpr ((leads_closeCells _).mono (fun _ middle closes => ?_) fun _ => id)
  refine (looks_peek 0).leads fun result _ => ?_
  rw [leads_bind, leads_get]
  split
  · refine leads_bind.mpr (leads_popFrame fun second touches _ _ => ?_)
    simp only [shrink, leads_bind, leads_modify, leads_pure]
    exact (popped closes touches).touches (.single (touch_shrink second 0))
  · split
    · refine Leads.after (fun _ (touches : Touches ⟨False, True⟩ _ _) =>
        closes.steady.trans (Touches.steady touches id).1) fun struct second found => ?_
      refine Leads.after (fun _ touches =>
        closes.steady.trans (Touches.steady (found.trans touches) id).1) fun copy third copied => ?_
      exact handsBack copy (closes.touches (found.trans copied))
    · exact handsBack result closes

end Closing

section Making

variable {before machine : Machine} {slot : Nat} {cell closure : ObjectId}

/-- Cells are opened, and what was in use is as it was. -/
structure Opens (before after : Machine) : Prop where
  retains : Heap.Retains before.roots before.heap after.heap
  rooted : ∀ id ∈ before.roots, id ∈ after.roots
  kept : ∀ entry ∈ before.openCells, entry ∈ after.openCells
  origin : ∀ {slot : Nat} {cell : ObjectId}, (slot, cell) ∈ after.openCells →
    (slot, cell) ∈ before.openCells ∨ before.heap.nextId ≤ cell

theorem Opens.refl (machine : Machine) : Opens machine machine :=
  ⟨.refl _ _, fun _ member => member, fun _ member => member, Or.inl⟩

/-- A request for room that fails has at most collected. -/
theorem Opens.leads_allocate (opens : Opens before machine)
    (bounded : before.heap.Bounded before.roots) (pinned : List ObjectId) (object : Object)
    {done : ObjectId → Machine → Prop}
    (goesOn : ∀ ready : Heap, ready.nextId = machine.heap.nextId →
      (∀ id, Heap.Reaches machine.heap.objects machine.roots id →
        ready.get? id = machine.heap.get? id) →
      Heap.Retains before.roots before.heap (ready.link object) →
      done ready.nextId { machine with heap := ready.link object }) :
    Leads (allocating pinned (Heap.allocate · object)) machine done
      fun after => Steady before.heap after.heap := by
  let roots : Unit → List ObjectId := fun _ => pinned ++ machine.roots
  have among : ∀ id ∈ before.roots, id ∈ roots () :=
    fun id member => List.mem_append_right _ (opens.rooted id member)
  have ready := opens.retains.prepared among object.size.toUInt64
  have same : ∀ id, Heap.Reaches machine.heap.objects machine.roots id →
      (machine.heap.prepared roots object.size.toUInt64).get? id = machine.heap.get? id :=
    fun id reached => Heap.get?_prepared_of_reaches
      (reached.mono fun root member => .root (List.mem_append_right _ member))
  have tells := @tells_prepared machine pinned object.size.toUInt64
  have next := Heap.prepared_nextId machine.heap roots object.size.toUInt64
  rw [leads_allocating, Heap.allocate_eq]
  change ∀ fault, Tells ⟨fault, machine.trace⟩
    { machine with heap := machine.heap.prepared roots object.size.toUInt64 } at tells
  generalize machine.heap.prepared roots object.size.toUInt64 = prepared at ready same tells next ⊢
  by_cases full : prepared.overLimit object.size.toUInt64 = true
  · simp only [full, ↓reduceIte]
    exact ⟨.of_retains ready, tells _⟩
  · simp only [full, Bool.false_eq_true, ↓reduceIte]
    exact goesOn prepared next same (ready.link bounded object)

theorem roots_insertCell {id : ObjectId} (heap : Heap) (member : id ∈ machine.roots) :
    id ∈ { machine with heap, openCells := insertCell slot cell machine.openCells }.roots := by
  simp only [roots, List.mem_append] at member ⊢
  rcases member with others | isCell
  · exact Or.inl others
  · obtain ⟨entry, inside, rfl⟩ := List.mem_map.mp isCell
    exact Or.inr (List.mem_map_of_mem (mem_insertCell.mpr (Or.inr inside)))

/-- A captured slot has its one open cell. -/
theorem Opens.leads_captureSlot (opens : Opens before machine)
    (bounded : before.heap.Bounded before.roots) (slot : Nat)
    {done : ObjectId → Machine → Prop}
    (goesOn : ∀ (cell : ObjectId) (heap : Heap) (cells : List (Nat × ObjectId)),
      Opens before { machine with heap, openCells := cells } →
      (slot, cell) ∈ cells → (∀ entry ∈ machine.openCells, entry ∈ cells) →
      machine.heap.nextId ≤ heap.nextId →
      (∀ id ∈ machine.roots, id < machine.heap.nextId → heap.get? id = machine.heap.get? id) →
      done cell { machine with heap, openCells := cells }) :
    Leads (captureSlot slot) machine done fun after => Steady before.heap after.heap := by
  simp only [captureSlot, leads_bind, leads_get]
  split
  · next cell found =>
    obtain ⟨first, rest, split, _⟩ := List.lookup_eq_some_iff.mp found
    exact goesOn cell machine.heap machine.openCells opens (by simp [split])
      (fun _ member => member) (Nat.le_refl _) fun _ _ _ => rfl
  · next unlisted =>
    refine leads_bind.mpr (opens.leads_allocate bounded [] _ fun ready next kept retains => ?_)
    have grown := opens.retains.grown
    refine goesOn ready.nextId _ _ ⟨retains, fun id member => ?_, fun entry member => ?_,
      fun member => ?_⟩ (mem_insertCell.mpr (Or.inl rfl))
      (fun entry member => mem_insertCell.mpr (Or.inr member)) ?_ fun id member below => ?_
    · exact roots_insertCell _ (opens.rooted id member)
    · exact mem_insertCell.mpr (Or.inr (opens.kept entry member))
    · rcases mem_insertCell.mp member with same | old
      · cases same
        exact Or.inr (next ▸ grown)
      · exact opens.origin old
    · exact Nat.le_trans (Nat.le_of_eq next.symm) (Nat.le_succ _)
    · rw [Heap.get?_link, if_neg (by lia), kept id (.root member)]

/-- What a capture of a closure is filled with: the open cell of a slot of the frame that makes it,
or what one of the captures of that frame's closure holds. -/
def Fills (base : Nat) (outer : Array (Option ObjectId)) (cells : List (Nat × ObjectId))
    (capture : Capture) (upvalue : Option (Option ObjectId)) : Prop :=
  if capture.isLocal then ∃ cell, upvalue = some (some cell) ∧ (base + capture.index, cell) ∈ cells
  else upvalue = outer[capture.index]?

theorem Fills.mono {base : Nat} {outer : Array (Option ObjectId)}
    {cells more : List (Nat × ObjectId)}
    {capture : Capture} {upvalue : Option (Option ObjectId)}
    (fills : Fills base outer cells capture upvalue) (kept : ∀ entry ∈ cells, entry ∈ more) :
    Fills base outer more capture upvalue := by
  unfold Fills at fills ⊢
  split
  · next isLocal =>
    rw [if_pos isLocal] at fills
    obtain ⟨cell, isCell, member⟩ := fills
    exact ⟨cell, isCell, kept _ member⟩
  · next isLocal => rwa [if_neg isLocal] at fills

/-- The captures of a closure have been filled from `index` on. -/
structure Filled (before machine : Machine) (base : Nat) (outer : Array (Option ObjectId))
    (closure prototype : ObjectId) (index : Nat) (upvalues : Array (Option ObjectId))
    (captures : List Capture) (after : Machine) : Prop where
  opens : Opens before after
  stack : after.stack = machine.stack
  cells : ∀ entry ∈ machine.openCells, entry ∈ after.openCells
  filled : ∃ filled, after.heap.get? closure = some (.closure prototype filled) ∧
    (∀ other < index, filled[other]? = upvalues[other]?) ∧
    ∀ other capture, captures[other]? = some capture →
      Fills base outer after.openCells capture filled[index + other]?

section Loop

variable {frame : Frame} {prototype maker : ObjectId} {outer upvalues : Array (Option ObjectId)}
  {capture : Capture} {rest : List Capture} {index : Nat}

/-- One capture is filled, and then the others. -/
theorem leads_fill (bounded : before.heap.Bounded before.roots) (new : before.heap.nextId ≤ closure)
    {upvalue : Option ObjectId} (opens : Opens before machine)
    (present : machine.heap.get? closure = some (.closure prototype upvalues))
    (inside : index < upvalues.size)
    (fills : Fills frame.base outer machine.openCells capture (some upvalue))
    (later : ∀ {next : Machine}, Opens before next → next.stack = machine.stack →
      next.openCells = machine.openCells → next.heap.nextId = machine.heap.nextId →
      next.heap.get? closure
        = some (.closure prototype (upvalues.setIfInBounds index upvalue)) →
      Leads (captureAll frame closure (index + 1) rest) next
        (fun _ => Filled before next frame.base outer closure prototype (index + 1)
          (upvalues.setIfInBounds index upvalue) rest)
        fun after => Steady before.heap after.heap) :
    Leads (do
        modifyHeap fun heap => heap.setUpvalue closure index upvalue
        captureAll frame closure (index + 1) rest) machine
      (fun _ => Filled before machine frame.base outer closure prototype index upvalues
        (capture :: rest))
      fun after => Steady before.heap after.heap := by
  have isSet : machine.heap.setUpvalue closure index upvalue
      = machine.heap.set closure (.closure prototype (upvalues.setIfInBounds index upvalue)) := by
    simp only [Heap.setUpvalue, present]
  refine leads_bind.mpr ?_
  change Leads (captureAll frame closure (index + 1) rest)
    { machine with heap := machine.heap.setUpvalue closure index upvalue } _ _
  rw [isSet]
  have next : Opens before
      { machine with
        heap := machine.heap.set closure
          (.closure prototype (upvalues.setIfInBounds index upvalue)) } :=
    ⟨opens.retains.set bounded new _, opens.rooted, opens.kept, opens.origin⟩
  refine (later next rfl rfl rfl (Heap.get?_set_self present)).mono ?_ fun _ => id
  rintro _ after ⟨opens', stack, cells, filled, isFilled, older, newer⟩
  refine ⟨opens', stack, cells, filled, isFilled, fun other before => ?_,
    fun other captured isCapture => ?_⟩
  · rw [older other (by omega), Array.getElem?_setIfInBounds_ne (by omega)]
  · cases other with
    | zero =>
      cases isCapture
      rw [Nat.add_zero, older index (by omega), Array.getElem?_setIfInBounds_self_of_lt inside]
      exact fills.mono cells
    | succ other =>
      have filled := newer other captured isCapture
      rwa [Nat.add_right_comm] at filled

/-- The captures of a new closure, which is on the stack, are filled one after the other. -/
theorem leads_captures (bounded : before.heap.Bounded before.roots)
    (new : before.heap.nextId ≤ closure) (making : frame.closure ∈ before.roots)
    (here : before.heap.get? frame.closure = some (.closure maker outer)) :
    ∀ (captures : List Capture) (index : Nat) {machine : Machine}
      {upvalues : Array (Option ObjectId)} {place : Nat}, Opens before machine →
      machine.stack[place]? = some (.ref closure) → closure < machine.heap.nextId →
      machine.heap.get? closure = some (.closure prototype upvalues) →
      index + captures.length = upvalues.size →
      Leads (captureAll frame closure index captures) machine
        (fun _ => Filled before machine frame.base outer closure prototype index upvalues captures)
        fun after => Steady before.heap after.heap := by
  intro captures
  induction captures with
  | nil =>
    intro index machine upvalues place opens _ _ present _
    exact ⟨opens, rfl, fun _ member => member, upvalues, present, fun _ _ => rfl,
      fun _ _ found => by simp at found⟩
  | cons capture rest ih =>
    intro index machine upvalues place opens onStack below present length
    simp only [List.length_cons] at length
    have rooted : closure ∈ machine.roots := mem_roots_of_value onStack List.mem_cons_self
    have goesOn := fun upvalue {next : Machine} (opens : Opens before next)
        (stack : next.stack = machine.stack) (grown : machine.heap.nextId ≤ next.heap.nextId)
        (found : next.heap.get? closure
          = some (.closure prototype (upvalues.setIfInBounds index upvalue))) =>
      ih (index + 1) opens (stack ▸ onStack) (Nat.lt_of_lt_of_le below grown) found
        (by rw [Array.size_setIfInBounds]; omega)
    rw [captureAll]
    by_cases isLocal : capture.isLocal = true
    · simp only [isLocal, ↓reduceIte]
      refine leads_bind.mpr (leads_bind.mpr ?_)
      refine opens.leads_captureSlot bounded _ fun cell heap cells opened listed kept grown same =>
        ?_
      have found : heap.get? closure = some (.closure prototype upvalues) := by
        rw [same closure rooted below, present]
      have fills : Fills frame.base outer cells capture (some (some cell)) := by
        rw [Fills, if_pos isLocal]
        exact ⟨cell, rfl, listed⟩
      refine (leads_fill bounded new opened found (by omega) fills
        fun next stack _ size here => goesOn _ next stack (size ▸ grown) here).mono ?_ fun _ => id
      rintro _ after ⟨opens', stack, cells', filled⟩
      exact ⟨opens', stack, fun entry member => cells' entry (kept entry member), filled⟩
    · simp only [isLocal, Bool.false_eq_true, ↓reduceIte]
      have isMaker : machine.heap.get? frame.closure = some (.closure maker outer) := by
        rw [opens.retains.kept _ (.root making), here]
      rw [leads_bind, leads_get]
      simp only [isMaker]
      refine leads_bind.mpr (leads_given fun upvalue isUpvalue => ?_)
      have fills : Fills frame.base outer machine.openCells capture (some upvalue) := by
        rw [Fills, if_neg isLocal]
        exact isUpvalue.symm
      exact leads_fill bounded new opens present (by omega) fills
        fun next stack _ size found => goesOn _ next stack (Nat.le_of_eq size.symm) found

end Loop

/-- A closure of a prototype has been made and put on the stack. -/
structure Made (before : Machine) (base : Nat) (outer : Array (Option ObjectId)) (inner : Prototype)
    (closure : ObjectId) (after : Machine) : Prop where
  opens : Opens before after
  stack : after.stack = before.stack.push (.ref closure)
  new : before.heap.nextId ≤ closure
  upvalues : ∃ prototype upvalues, after.heap.get? closure = some (.closure prototype upvalues) ∧
    ∀ (index : Nat) (capture : Capture), inner.captures[index]? = some capture →
      Fills base outer after.openCells capture upvalues[index]?

theorem leads_newClosure {prototype : ObjectId} {inner : Prototype} {pinned : List ObjectId}
    (function : machine.heap.prototype? prototype = some inner) {done : ObjectId → Machine → Prop}
    {struck : Machine → Prop}
    (leads : Leads (allocating pinned
      (Heap.allocate · (.closure prototype (Array.replicate inner.captures.size none)))) machine
        done
      struck) :
    Leads (allocating pinned (Heap.newClosure · prototype)) machine done struck := by
  have opened : ∀ roots, Heap.newClosure roots prototype machine.heap
      = Heap.allocate roots (.closure prototype (Array.replicate inner.captures.size none))
          machine.heap := by
    intro roots
    change Heap.allocate roots (.closure prototype (Array.replicate
      (((machine.heap.prototype? prototype).map fun body => body.captures.size).getD 0) none))
      machine.heap = _
    rw [function]
    rfl
  rw [leads_allocating] at leads ⊢
  rw [opened]
  exact leads

theorem leads_makeClosure {site : Site} {index : Int} {maker : ObjectId}
    {outer : Array (Option ObjectId)} (bounded : machine.heap.Bounded machine.roots)
    (making : site.frame.closure ∈ machine.roots)
    (here : machine.heap.get? site.frame.closure = some (.closure maker outer)) :
    Leads (makeClosure site index) machine
      (fun _ after => ∃ inner closure, site.prototype.Makes machine.heap index inner ∧
        Made machine site.frame.base outer inner closure after)
      fun after => Steady machine.heap after.heap := by
  unfold makeClosure
  split
  · next id isConstant =>
    rw [leads_bind, leads_get]
    refine leads_bind.mpr (leads_given fun inner function => ?_)
    refine leads_bind.mpr (leads_newClosure function ?_)
    refine (Opens.refl machine).leads_allocate bounded [] _ fun ready next kept retains => ?_
    have steady := Steady.of_retains retains
    simp only [push, leads_bind, leads_get]
    split
    · exact leads_fail.mpr steady
    rw [leads_modify]
    let object := Object.closure id (Array.replicate inner.captures.size none)
    have opens : Opens machine
        { machine with heap := ready.link object, stack := machine.stack.push (.ref ready.nextId)
          } := by
      refine ⟨retains, fun root member => ?_, fun _ member => member, Or.inl⟩
      simp only [roots, List.mem_append] at member ⊢
      rcases member with ((((others | stacked) | framed) | isGlobal) | isNative) | isCell
      · exact Or.inl (Or.inl (Or.inl (Or.inl (Or.inl others))))
      · obtain ⟨value, inside, isRoot⟩ := List.mem_flatMap.mp stacked
        refine Or.inl (Or.inl (Or.inl (Or.inl (Or.inr (List.mem_flatMap.mpr ⟨value, ?_, isRoot⟩)))))
        simpa using Or.inl inside
      · exact Or.inl (Or.inl (Or.inl (Or.inr framed)))
      · exact Or.inl (Or.inl (Or.inr isGlobal))
      · exact Or.inl (Or.inr isNative)
      · exact Or.inr isCell
    refine (leads_captures bounded (Nat.le_of_eq next.symm) making here inner.captures.toList 0
      opens
      Array.getElem?_push_size (Nat.lt_succ_self _) (Heap.get?_link_self _ _) (by simp)).mono ?_
      fun _ strikes => strikes
    rintro _ after ⟨opens', stack, _, filled, isFilled, _, fills⟩
    refine ⟨inner, ready.nextId, ⟨id, isConstant, function⟩, opens', stack,
      Nat.le_of_eq next.symm, id, filled, isFilled, fun position capture isCapture => ?_⟩
    have result := fills position capture (by simpa using isCapture)
    rwa [Nat.zero_add] at result
  · exact leads_goWrong

end Making

section Passing

/-- How the captured variables of one state go over to the next one, where the slots in `released`
are given up. -/
structure Passes (released : Nat → Prop) (before after : Machine) : Prop where
  steady : Steady before.heap after.heap
  kept : ∀ {slot : Nat} {cell : ObjectId}, (slot, cell) ∈ before.openCells → ¬ released slot →
    (slot, cell) ∈ after.openCells
  origin : ∀ {slot : Nat} {cell : ObjectId}, (slot, cell) ∈ after.openCells →
    ((slot, cell) ∈ before.openCells ∧ ¬ released slot) ∨ before.heap.nextId ≤ cell

/-- The first of the slots that the next instruction gives up. A call that ends gives up all slots
of its frame, and any other instruction what it takes from the stack. -/
def spared (machine : Machine) : Nat :=
  match fetch machine with
  | .ok (site, code) _ =>
    if code.op = .return then site.frame.base
    else machine.stack.size - (site.prototype.effect code).drops
  | .error _ _ => 0

variable {program : Program} {live : ObjectId → Prop} {shape : Shape} {machine after : Machine}
  {frame : Frame} {waiting : List Frame} {body : Prototype} {code : Instruction}

theorem AtCode.spared_eq (atCode : AtCode machine frame waiting body code) :
    machine.spared = if code.op = .return then frame.base
      else machine.stack.size - (body.effect code).drops := by
  simp only [spared, fetch, atCode.frames, atCode.isBody, atCode.here]

/-- What an instruction does to the open cells. -/
inductive Handles (code : Instruction) (frame : Frame) (body : Prototype) (before : Machine) :
    Machine → Prop where
  | mild {after : Machine} : code.op.movesCells = false → Steady before.heap after.heap →
      after.openCells = before.openCells → Handles code frame body before after
  | closes {after : Machine} : code.op = .closeUpvalue →
      Closes (before.stack.size - 1) before after → Handles code frame body before after
  | returns {after : Machine} : code.op = .return → Closes frame.base before after →
      Handles code frame body before after
  | makes {after : Machine} {maker closure : ObjectId} {outer : Array (Option ObjectId)}
      {inner : Prototype} : code.op = .closure →
      before.heap.get? frame.closure = some (.closure maker outer) →
      body.Makes before.heap code.a inner → Made before frame.base outer inner closure after →
      Handles code frame body before after

theorem Handles.steady (handles : Handles code frame body machine after) :
    Steady machine.heap after.heap := by
  cases handles with
  | mild _ steady _ => exact steady
  | closes _ closes => exact closes.steady
  | returns _ closes => exact closes.steady
  | makes _ _ _ made => exact .of_retains made.opens.retains

theorem AtCode.handles (atCode : AtCode machine frame waiting body code)
    (data : Data program live [] shape machine) (filed : Filed machine) :
    Leads step machine
      (fun _ => Handles code frame body (fetched machine frame waiting))
      fun after => Steady machine.heap after.heap := by
  have leads := atCode.leads filed
  cases moves : code.op.movesCells with
  | false =>
    refine leads.mono (fun _ after executes => ?_) fun after struck => ?_
    · obtain ⟨steady, cells⟩ := executes.steady moves
      exact .mild moves steady cells
    · cases struck with
      | here touches =>
        exact (Touches.steady touches fun free => by simp [licence, moves] at free).1
      | calling _ begins =>
        obtain ⟨base, _, first, _, _, second⟩ := begins
        exact (Touches.steady first id).1.trans (Touches.steady second id).1
  | true =>
    unfold Leads
    rw [atCode.step_eq]
    change Leads (execute ⟨frame, body⟩ code) (fetched machine frame waiting) _ _
    unfold execute
    cases isOp : code.op with
    | closeUpvalue =>
      refine leads_bind.mpr (leads_bind.mpr ((leads_closeCells _).mono (fun _ middle closes => ?_)
        fun _ strikes => strikes))
      refine Leads.after (fun _ touches => (closes.touches touches).steady) fun _ last touches => ?_
      exact .closes isOp (closes.touches touches)
    | «return» =>
      refine (leads_returning _).mono (fun _ last closes => ?_) fun _ strikes => strikes
      exact .returns isOp closes
    | closure =>
      obtain ⟨prototype, upvalues, found, _⟩ := closurePrototype?_eq_some.mp atCode.isBody
      have same : (fetched machine frame waiting).roots = machine.roots :=
        roots_fetched atCode.frames
      have making : frame.closure ∈ (fetched machine frame waiting).roots := by
        rw [same]
        exact mem_roots_of_frame (by rw [atCode.frames]; exact List.mem_cons_self)
      have bounded : machine.heap.Bounded (fetched machine frame waiting).roots := by
        intro id reached
        rw [same] at reached
        obtain ⟨object, present, _⟩ := data.stored.sane (data.reached reached)
        exact data.stored.tidy.bounded present
      refine leads_bind.mpr
        ((leads_makeClosure bounded making found).mono ?_ fun _ strikes => strikes)
      rintro _ last ⟨inner, closure, makes, made⟩
      exact .makes isOp found makes made
    | constant | nil | true | false | pop | getLocal | setLocal | getGlobal | defineGlobal |
        setGlobal
    | getUpvalue | setUpvalue | getProperty | setProperty | equal | greater | less | add | subtract
    | multiply | divide | not | negate | print | jump | jumpIfFalse | jumpIfTrue | call | invoke
    | stackStruct | heapStruct | promote | copyStruct | unknown =>
      rw [isOp] at moves
      cases moves

/-- The open cells are listed by descending slots, so those from some slot on are the first ones. -/
theorem mem_dropWhile_cells {cells : List (Nat × ObjectId)} {fromSlot : Nat}
    (descending : (cells.map Prod.fst).Pairwise (· > ·)) {entry : Nat × ObjectId} :
    entry ∈ cells.dropWhile (fromSlot ≤ ·.1) ↔ entry ∈ cells ∧ entry.1 < fromSlot := by
  induction cells with
  | nil => simp
  | cons first rest ih =>
    obtain ⟨below, others⟩ := List.pairwise_cons.mp descending
    by_cases reaches : fromSlot ≤ first.1
    · rw [List.dropWhile_cons_of_pos (by simpa using reaches), ih others, List.mem_cons]
      constructor
      · exact fun inside => ⟨Or.inr inside.1, inside.2⟩
      · rintro ⟨rfl | inside, small⟩
        · omega
        · exact ⟨inside, small⟩
    · rw [List.dropWhile_cons_of_neg (by simpa using reaches)]
      refine ⟨fun inside => ⟨inside, ?_⟩, And.left⟩
      rcases List.mem_cons.mp inside with rfl | later
      · omega
      · have := below entry.1 (List.mem_map_of_mem later)
        omega

/-- Only the end of a call and of a scope give up the slot of a captured variable. -/
theorem Data.clear (data : Data program live [] shape machine)
    (stacked : Stacked program shape.captured shape.calls shape.height shape.height)
    (atCode : AtCode machine frame waiting body code) (notClose : code.op ≠ .closeUpvalue)
    (notReturn : code.op ≠ .return) {slot : Nat} {cell : ObjectId}
    (member : (slot, cell) ∈ machine.openCells) :
    slot < machine.stack.size - (body.effect code).drops := by
  obtain ⟨call, calls, runs, _, isCalls⟩ :=
    List.forall₂_cons_left_iff.mp (atCode.frames ▸ data.calls)
  cases runs.body.symm.trans atCode.isBody
  have here : call.body.code[call.ip]? = some code := runs.ip ▸ atCode.here
  rw [isCalls] at stacked
  have below : ∀ slot ∈ shape.captured, slot < shape.height := by
    intro slot inside
    rw [← data.captured] at inside
    obtain ⟨entry, listed, rfl⟩ := List.mem_map.mp inside
    exact (data.cells listed).1
  rw [data.size]
  refine stacked.clear here below notClose notReturn slot ?_
  rw [← data.captured]
  exact List.mem_map_of_mem member

/-- An instruction hands on the captured variables whose slots it does not give up. -/
theorem Sound.passes (sound : Sound program machine) (filed : Filed machine) {progress : Progress}
    (ran : step machine = .ok progress after)
    (inside : ∀ {slot cell}, (slot, cell) ∈ after.openCells → slot < after.stack.size) :
    Passes (fun slot => machine.spared ≤ slot ∨ after.stack.size ≤ slot) machine after := by
  obtain ⟨frame, waiting, body, code, atCode⟩ := sound.atCode
  obtain ⟨live, shape, data, stacked⟩ := sound
  have handles := atCode.handles data filed
  rw [Leads, ran] at handles
  have descending : (machine.openCells.map Prod.fst).Pairwise (· > ·) := by
    rw [data.captured]
    exact data.descending
  have spared := atCode.spared_eq
  -- what is not given up is as before, and what is new has a new cell
  have passes : ∀ {bound : Nat}, machine.spared = bound →
      (∀ {slot cell}, (slot, cell) ∈ machine.openCells → slot < bound →
        (slot, cell) ∈ after.openCells) →
      (∀ {slot cell}, (slot, cell) ∈ after.openCells →
        ((slot, cell) ∈ machine.openCells ∧ slot < bound) ∨ machine.heap.nextId ≤ cell) →
      Passes (fun slot => machine.spared ≤ slot ∨ after.stack.size ≤ slot) machine after := by
    intro bound isBound kept origin
    refine ⟨handles.steady, fun member unreleased => ?_, fun member => ?_⟩
    · rw [isBound] at unreleased
      exact kept member (by omega)
    · refine (origin member).imp_left fun old => ⟨old.1, ?_⟩
      have := inside member
      rw [isBound]
      omega
  cases handles with
  | mild moves _ cells =>
    have notReturn : code.op ≠ .return := fun isOp => by simp [isOp, Opcode.movesCells] at moves
    have notClose : code.op ≠ .closeUpvalue := fun isOp => by
      simp [isOp, Opcode.movesCells] at moves
    rw [if_neg notReturn] at spared
    have same : after.openCells = machine.openCells := cells
    refine passes spared (fun member _ => same ▸ member) fun member => Or.inl ⟨same ▸ member, ?_⟩
    exact data.clear stacked atCode notClose notReturn (same ▸ member)
  | closes isClose closes =>
    rw [if_neg (by simp [isClose])] at spared
    have one : (body.effect code).drops = 1 := by simp [Prototype.effect, isClose]
    rw [one] at spared
    have same : after.openCells = machine.openCells.dropWhile (machine.stack.size - 1 ≤ ·.1) :=
      closes.cells
    rw [same] at passes
    exact passes spared (fun member below => (mem_dropWhile_cells descending).mpr ⟨member, below⟩)
      fun member => Or.inl ((mem_dropWhile_cells descending).mp member)
  | returns isReturn closes =>
    rw [if_pos isReturn] at spared
    have same : after.openCells = machine.openCells.dropWhile (frame.base ≤ ·.1) := closes.cells
    rw [same] at passes
    exact passes spared (fun member below => (mem_dropWhile_cells descending).mpr ⟨member, below⟩)
      fun member => Or.inl ((mem_dropWhile_cells descending).mp member)
  | makes isClosure _ _ made =>
    rw [if_neg (by simp [isClosure])] at spared
    have none : (body.effect code).drops = 0 := by simp [Prototype.effect, isClosure]
    rw [none] at spared
    refine passes spared (fun member _ => made.opens.kept _ member) fun member => ?_
    refine (made.opens.origin member).imp_left fun old => ⟨old, ?_⟩
    have below := (data.cells old).1
    rw [data.size]
    exact below

end Passing

end ScriptMachine.Machine
