import ScriptMachine.Proofs.Source.Tracking

set_option autoImplicit false

/- What an instruction does to the picture that a machine shows: the instructions that push values, and
those for variables. -/
namespace ScriptMachine.Source

open Machine (Advances Delivers Midway Progress)

variable {world : World} {legend : Legend} {store : Store} {items lower : List Item} {image : Image}
  {position base : Nat} {calls : List Call} {frame : Frame} {machine : Machine} {datum : Datum}
  {value : Value} {item : Item} {code : Instruction}

section Steps

/-- A closure runs the body that it is made of. -/
theorem Mapped.body {heap : Heap} {registry : Registry} {closure : ObjectId} {source : Option Nat}
    {body : Prototype} (mapped : Mapped world legend registry store items heap)
    (told : legend closure = some (.closure source image))
    (isBody : heap.closurePrototype? closure = some body) : body = image.setting.body := by
  obtain ⟨prototype, upvalues, found, function⟩ := Machine.closurePrototype?_eq_some.mp isBody
  cases mapped.fits told found with
  | closure _ code _ =>
    cases mapped.fits code function
    rfl

/-- A machine that shows a call executes the next instruction of its code. -/
theorem Shown.ready (shown : Shown world ⟨store, items, ⟨image, position, base⟩ :: calls⟩ machine)
    (here : image.setting.body.code[position]? = some code) :
    ∃ legend frame middle, Machine.fetch machine = .ok (⟨frame, image.setting.body⟩, code) middle ∧
      Ready world legend store items ⟨image, position + 1, base⟩ calls frame middle := by
  obtain ⟨⟨legend, depicts⟩, program, midway⟩ := shown
  obtain ⟨frame, waiting, body, other, atCode⟩ := midway.sound.atCode
  obtain ⟨live, shape, data, _⟩ := midway.sound
  have frames := depicts.calls
  rw [atCode.frames] at frames
  obtain _ | ⟨⟨⟨source, told⟩, isPosition, isBase⟩, others⟩ := frames
  obtain rfl := depicts.mapped.body told atCode.isBody
  have isCode := atCode.here
  rw [isPosition] at isCode
  cases here.symm.trans isCode
  refine ⟨legend, frame, _, atCode.fetch_eq, ?_, ⟨source, told⟩, isBase, fun id reached => ?_, ?_⟩
  · refine { depicts with calls := .cons ⟨⟨source, told⟩, ?_, isBase⟩ others }
    exact congrArg (· + 1) isPosition
  · change Heap.Reaches machine.heap.objects _ id at reached
    rw [Machine.roots_fetched atCode.frames] at reached
    exact data.supplied id reached
  · exact (midway.poised.fetched atCode.frames).filed

theorem Shown.step_eq {middle : Machine} (fetches : Machine.fetch machine = .ok (⟨frame, image.setting.body⟩, code) middle) :
    Machine.step machine = Machine.execute ⟨frame, image.setting.body⟩ code middle := by
  simp only [Machine.step, bind, EStateM.bind, fetches]

/-- An instruction leads to the next picture, unless the stack overflows. -/
theorem Shown.goes {picture : Picture}
    (shown : Shown world ⟨store, items, ⟨image, position, base⟩ :: calls⟩ machine)
    (here : image.setting.body.code[position]? = some code)
    (executes : ∀ {legend : Legend} {frame : Frame} {middle : Machine},
      Ready world legend store items ⟨image, position + 1, base⟩ calls frame middle →
      Delivers (Machine.execute ⟨frame, image.setting.body⟩ code) middle
        (fun progress after => progress = .running ∧ ∃ legend, Depicts world legend picture after)
        fun fault _ => fault = .stackOverflow) :
    Arrives machine (Shown world picture) := by
  obtain ⟨legend, frame, middle, fetches, ready⟩ := shown.ready here
  obtain ⟨-, program, midway⟩ := shown
  have delivers := executes ready
  have safe := Machine.safe_step midway.sound
  unfold Delivers at delivers
  rw [← Shown.step_eq fetches] at delivers
  rw [Machine.Safe] at safe
  split at delivers
  · next progress after ran =>
    obtain ⟨rfl, depicts⟩ := delivers
    exact Or.inr ⟨1, after, .more ran (.none after), depicts, program, midway.step ran⟩
  · next error after ran =>
    exact Or.inl ⟨1, error, after.reset, by rw [Machine.run, ran], delivers⟩
  · next after ran =>
    rw [ran] at safe
    exact safe.elim

/-- An instruction strikes with a fault. -/
theorem Shown.strikes {fault : Fault}
    (shown : Shown world ⟨store, items, ⟨image, position, base⟩ :: calls⟩ machine)
    (here : image.setting.body.code[position]? = some code)
    (executes : ∀ {legend : Legend} {frame : Frame} {middle : Machine},
      Ready world legend store items ⟨image, position + 1, base⟩ calls frame middle →
      Delivers (Machine.execute ⟨frame, image.setting.body⟩ code) middle (fun _ _ => False)
        fun struck after => struck = fault ∧ after.output.toList = store.output) :
    Faults fault store.output machine := by
  obtain ⟨legend, frame, middle, fetches, ready⟩ := shown.ready here
  obtain ⟨-, program, midway⟩ := shown
  have delivers := executes ready
  have safe := Machine.safe_step midway.sound
  unfold Delivers at delivers
  rw [← Shown.step_eq fetches] at delivers
  rw [Machine.Safe] at safe
  split at delivers
  · exact delivers.elim
  · next error after ran =>
    exact ⟨1, error, after.reset, by rw [Machine.run, ran], delivers.1, delivers.2⟩
  · next after ran =>
    rw [ran] at safe
    exact safe.elim

/-- An instruction has some effect. -/
theorem Shown.acts {fact : Prop}
    (shown : Shown world ⟨store, items, ⟨image, position, base⟩ :: calls⟩ machine)
    (here : image.setting.body.code[position]? = some code)
    (executes : ∀ {legend : Legend} {frame : Frame} {middle : Machine},
      Ready world legend store items ⟨image, position + 1, base⟩ calls frame middle →
      Delivers (Machine.execute ⟨frame, image.setting.body⟩ code) middle (fun _ _ => fact)
        fun _ _ => fact) : fact := by
  obtain ⟨legend, frame, middle, fetches, ready⟩ := shown.ready here
  obtain ⟨-, program, midway⟩ := shown
  have delivers := executes ready
  have safe := Machine.safe_step midway.sound
  unfold Delivers at delivers
  rw [← Shown.step_eq fetches] at delivers
  rw [Machine.Safe] at safe
  split at delivers
  · exact delivers
  · exact delivers
  · next after ran =>
    rw [ran] at safe
    exact safe.elim

end Steps

section Pushing

variable {middle : Machine}

theorem string?_eq_some {heap : Heap} {id : ObjectId} {text : Text} :
    heap.string? id = some text ↔ heap.get? id = some (.string text) := by
  unfold Heap.string?
  split
  · next other found => simp [found]
  · next other => exact ⟨fun none => (nomatch none), fun found => absurd found (other text)⟩

/-- A value is pushed. -/
theorem Ready.push (ready : Ready world legend store items ⟨image, position, base⟩ calls frame middle)
    (shown : datum.Shows legend value) :
    Delivers (Machine.push value) middle
      (fun _ after => ∃ legend, Depicts world legend
        ⟨store, items ++ [.value datum], ⟨image, position, base⟩ :: calls⟩ after)
      fun fault _ => fault = .stackOverflow :=
  Machine.delivers_push rfl ⟨legend, ready.depicts.push rfl (.value shown)⟩

theorem Ready.founded (ready : Ready world legend store items ⟨image, position, base⟩ calls frame middle) :
    Founded legend middle.registry image.setting := by
  obtain ⟨source, told⟩ := ready.maker
  exact (ready.depicts.mapped.grounded told).1

/-- The name that an operand stands for. -/
theorem Ready.name (ready : Ready world legend store items ⟨image, position, base⟩ calls frame middle)
    {index : Nat} {name : Text} {id : ObjectId}
    (here : image.setting.body.constants[index]? = some (.ref id))
    (string : image.setting.heap.string? id = some name) {done : ObjectId × Text → Machine → Prop}
    {struck : Fault → Machine → Prop}
    (next : legend id = some (.string name) → middle.heap.get? id = some (.string name) →
      done (id, name) middle) :
    Delivers (Machine.nameOperand ⟨frame, image.setting.body⟩ index) middle done struck := by
  have constant : image.setting.body.constant? (index : Int) = some (.ref id) := by
    simpa [Prototype.constant?] using here
  have told : legend id = some (.string name) := ready.founded.strings (string?_eq_some.mp string)
  simp only [Machine.nameOperand, constant, Machine.delivers_bind, Machine.delivers_get]
  refine Machine.delivers_given fun text isText => ?_
  have present := string?_eq_some.mp isText
  cases ready.depicts.mapped.fits told present
  exact next told present

/-- An instruction that pushes a value. -/
theorem Shown.pushes (shown : Shown world ⟨store, items, ⟨image, position, base⟩ :: calls⟩ machine)
    (here : image.setting.body.code[position]? = some code)
    (executes : ∀ {legend : Legend} {frame : Frame} {middle : Machine},
      Ready world legend store items ⟨image, position + 1, base⟩ calls frame middle →
      ∀ done : Progress → Machine → Prop, (∀ value, datum.Shows legend value →
        Delivers (Machine.push value >>= fun _ => pure .running) middle done fun fault _ => fault = .stackOverflow) →
      Delivers (Machine.execute ⟨frame, image.setting.body⟩ code) middle done
        fun fault _ => fault = .stackOverflow) :
    Arrives machine
      (Shown world ⟨store, items ++ [.value datum], ⟨image, position + 1, base⟩ :: calls⟩) := by
  refine shown.goes here fun ready => executes ready _ fun value isShown => ?_
  rw [Machine.delivers_bind]
  exact (ready.push isShown).mono (fun _ _ depicts => ⟨rfl, depicts⟩) fun _ _ same => same

theorem Shown.pushes_nil
    (shown : Shown world ⟨store, items, ⟨image, position, base⟩ :: calls⟩ machine)
    (here : image.setting.body.code[position]? = some ⟨.nil, 0, 0⟩) :
    Arrives machine
      (Shown world ⟨store, items ++ [.value .nil], ⟨image, position + 1, base⟩ :: calls⟩) :=
  shown.pushes here fun _ _ next => next _ .nil

theorem Shown.pushes_bool {flag : Bool}
    (shown : Shown world ⟨store, items, ⟨image, position, base⟩ :: calls⟩ machine)
    (here : image.setting.body.code[position]? = some ⟨if flag then .true else .false, 0, 0⟩) :
    Arrives machine
      (Shown world ⟨store, items ++ [.value (.bool flag)], ⟨image, position + 1, base⟩ :: calls⟩) := by
  cases flag <;> exact shown.pushes here fun _ _ next => next _ (.bool _)

theorem Shown.pushes_number {index : Nat} {number : Float}
    (shown : Shown world ⟨store, items, ⟨image, position, base⟩ :: calls⟩ machine)
    (here : image.setting.body.code[position]? = some ⟨.constant, index, 0⟩)
    (constant : image.setting.body.constants[index]? = some (.number number)) :
    Arrives machine
      (Shown world ⟨store, items ++ [.value (.number number)], ⟨image, position + 1, base⟩ :: calls⟩) := by
  refine shown.pushes here fun _ _ next => ?_
  have isConstant : image.setting.body.constant? (index : Int) = some (.number number) := by
    simpa [Prototype.constant?] using constant
  simp only [Machine.execute, isConstant]
  exact next _ (.number _)

theorem Shown.pushes_string {index : Nat} {text : Text} {id : ObjectId}
    (shown : Shown world ⟨store, items, ⟨image, position, base⟩ :: calls⟩ machine)
    (here : image.setting.body.code[position]? = some ⟨.constant, index, 0⟩)
    (constant : image.setting.body.constants[index]? = some (.ref id))
    (string : image.setting.heap.string? id = some text) :
    Arrives machine
      (Shown world ⟨store, items ++ [.value (.string text)], ⟨image, position + 1, base⟩ :: calls⟩) := by
  refine shown.pushes here fun ready _ next => ?_
  have isConstant : image.setting.body.constant? (index : Int) = some (.ref id) := by
    simpa [Prototype.constant?] using constant
  simp only [Machine.execute, isConstant]
  exact next _ (.string (ready.founded.strings (string?_eq_some.mp string)))

end Pushing

section Variables

variable {middle : Machine} {bound cell slot index : Nat} {captured : Bool} {name : Text}

theorem readCell_eq (isValue : store.cells[cell]? = some datum) :
    readCell cell store = .ok datum store := by
  change (found store.cells[cell]? : Eval Datum) store = _
  rw [isValue]
  rfl

theorem Shown.reads_local
    (shown : Shown world ⟨store, items, ⟨image, position, base⟩ :: calls⟩ machine)
    (here : image.setting.body.code[position]? = some ⟨.getLocal, slot, 0⟩)
    (isItem : items[base + slot]? = some (.cell cell captured)) :
    Tracks bound (fun datum store => Shown world
      ⟨store, items ++ [.value datum], ⟨image, position + 1, base⟩ :: calls⟩) machine
      (readCell cell store) := by
  obtain ⟨⟨_, depicts⟩, _⟩ := id shown
  obtain ⟨_, _, isShown⟩ := depicts.slot isItem
  cases isShown with
  | cell _ isValue _ =>
    rw [readCell_eq isValue]
    refine shown.pushes here fun ready done next => ?_
    simp only [Machine.execute, Machine.delivers_bind]
    refine Machine.delivers_operand (Machine.delivers_slot fun value there => ?_)
    rw [Int.toNat_natCast, ready.base] at there
    cases ready.depicts.shows isItem there with
    | cell _ isValue' isShown =>
      cases isValue.symm.trans isValue'
      have delivers := next value isShown
      rwa [Machine.delivers_bind] at delivers

/-- The cell that a capture stands for. -/
theorem Ready.upvalue (ready : Ready world legend store items ⟨image, position, base⟩ calls frame middle)
    (isCell : image.cells[index]? = some (some cell)) {done : ObjectId × Cell → Machine → Prop}
    {struck : Fault → Machine → Prop}
    (next : ∀ id contents, legend id = some (.cell cell) →
      middle.heap.get? id = some (.cell contents) → done (id, contents) middle) :
    Delivers (Machine.upvalueCell frame index) middle done struck := by
  obtain ⟨source, told⟩ := ready.maker
  simp only [Machine.upvalueCell, Machine.delivers_bind, Machine.delivers_get]
  split
  · next prototype upvalues found =>
    rw [Machine.delivers_bind]
    refine Machine.delivers_given fun id isId => ?_
    rw [Machine.delivers_bind, Machine.delivers_get]
    split
    · next contents present =>
      cases ready.depicts.mapped.fits told found with
      | closure _ _ fits => exact next id contents (fits (Option.join_eq_some_iff.mp isId) isCell) present
    · exact Machine.delivers_goWrong
  · exact Machine.delivers_goWrong

theorem Shown.reads_upvalue
    (shown : Shown world ⟨store, items, ⟨image, position, base⟩ :: calls⟩ machine)
    (here : image.setting.body.code[position]? = some ⟨.getUpvalue, index, 0⟩)
    (isCell : image.cells[index]? = some (some cell)) :
    Tracks bound (fun datum store => Shown world
      ⟨store, items ++ [.value datum], ⟨image, position + 1, base⟩ :: calls⟩) machine
      (readCell cell store) := by
  have inside : cell < store.cells.size := shown.acts here fun ready => by
    simp only [Machine.execute, Machine.getUpvalue, Machine.delivers_bind]
    refine Machine.delivers_operand (ready.upvalue isCell fun id contents told present => ?_)
    have inside : cell < store.cells.size := ready.depicts.mapped.grounded told
    exact Delivers.constant inside _ _
  have isValue : store.cells[cell]? = some store.cells[cell] := Array.getElem?_eq_getElem inside
  rw [readCell_eq isValue]
  refine shown.pushes here fun ready done next => ?_
  simp only [Machine.execute, Machine.getUpvalue, Machine.delivers_bind]
  refine Machine.delivers_operand (ready.upvalue isCell fun id contents told present => ?_)
  simp only [Machine.delivers_bind] at next
  cases ready.depicts.mapped.fits told present with
  | opened isItem =>
    rw [Machine.delivers_bind]
    refine Machine.delivers_slot fun value there => ?_
    cases ready.depicts.shows isItem there with
    | cell _ isValue' isShown =>
      cases isValue.symm.trans isValue'
      exact next value isShown
  | closed _ isValue' isShown =>
    cases isValue.symm.trans isValue'
    exact next _ isShown

theorem Shows.plain {legend : Legend} (shown : datum.Shows legend value) (node : NodeId) :
    value ≠ .stack node := by
  cases shown <;> simp

/-- There is nothing to be copied to the heap. -/
theorem delivers_heapValue {legend : Legend} {done : Value → Machine → Prop}
    {struck : Fault → Machine → Prop} {machine : Machine} (shown : datum.Shows legend value)
    (next : done value machine) : Delivers (Machine.heapValue [] value) machine done struck := by
  unfold Machine.heapValue
  split
  · next node => exact absurd rfl (Shows.plain shown node)
  · exact next

theorem Shown.writes_local
    (shown : Shown world ⟨store, lower ++ [.value datum], ⟨image, position, base⟩ :: calls⟩ machine)
    (here : image.setting.body.code[position]? = some ⟨.setLocal, slot, 0⟩)
    (isItem : lower[base + slot]? = some (.cell cell captured)) :
    Tracks bound (fun _ store => Shown world
      ⟨store, lower ++ [.value datum], ⟨image, position + 1, base⟩ :: calls⟩) machine
      (writeCell cell datum store) := by
  refine shown.goes here fun ready => ?_
  simp only [Machine.execute, Machine.delivers_bind]
  have isItem : (lower ++ [Item.value datum])[base + slot]? = some (.cell cell captured) := by
    rw [List.getElem?_append_left (List.getElem?_eq_some_iff.mp isItem).1]
    exact isItem
  refine Machine.delivers_operand (Machine.delivers_peek fun value isTop =>
    Machine.delivers_setSlot fun _ => ?_)
  rw [Int.toNat_natCast, ready.base]
  exact ⟨rfl, _, ready.depicts.assign isItem (ready.depicts.top isTop)⟩

theorem Shown.writes_upvalue
    (shown : Shown world ⟨store, lower ++ [.value datum], ⟨image, position, base⟩ :: calls⟩ machine)
    (here : image.setting.body.code[position]? = some ⟨.setUpvalue, index, 0⟩)
    (isCell : image.cells[index]? = some (some cell)) :
    Tracks bound (fun _ store => Shown world
      ⟨store, lower ++ [.value datum], ⟨image, position + 1, base⟩ :: calls⟩) machine
      (writeCell cell datum store) := by
  refine shown.goes here fun ready => ?_
  simp only [Machine.execute, Machine.setUpvalue, Machine.delivers_bind]
  refine Machine.delivers_operand (ready.upvalue isCell fun id contents told present =>
    Machine.delivers_peek fun value isTop => ?_)
  have isShown := ready.depicts.top isTop
  cases ready.depicts.mapped.fits told present with
  | opened isItem =>
    simp only [Machine.assignCell]
    split
    · next node => exact absurd rfl (Shows.plain isShown node)
    · exact Machine.delivers_setSlot fun _ => ⟨rfl, _, ready.depicts.assign isItem isShown⟩
  | closed apart _ _ =>
    simp only [Machine.assignCell, Machine.delivers_bind]
    exact delivers_heapValue isShown ⟨rfl, _, { ready.depicts with
      mapped := ready.depicts.mapped.reassigned told present isShown
      stack := ready.depicts.others apart }⟩

end Variables

section Globals

variable {middle : Machine} {bound index : Nat} {name : Text} {id : ObjectId}

/-- Strings of the same text are one object. -/
theorem eq_of_string {heap : Heap} {key : ObjectId} (tidy : heap.Tidy)
    (one : heap.get? id = some (.string name)) (other : heap.get? key = some (.string name)) :
    key = id := by
  have filed := tidy.filed.mpr one
  rw [tidy.filed.mpr other] at filed
  exact Option.some.inj filed

/-- A string that has been filed under some name is the one of that name. -/
theorem Mapped.key {heap : Heap} {registry : Registry} {key : ObjectId}
    (mapped : Mapped world legend registry store items heap)
    (present : heap.get? id = some (.string name)) (told : legend key = some (.string name))
    (filed : ∃ text, heap.get? key = some (.string text)) : key = id := by
  obtain ⟨text, here⟩ := filed
  cases mapped.fits told here
  exact eq_of_string mapped.tidy present here

/-- The value of a global, if there is one. -/
theorem Ready.global (ready : Ready world legend store items ⟨image, position, base⟩ calls frame middle)
    (told : legend id = some (.string name)) (present : middle.heap.get? id = some (.string name)) :
    match store.globals.lookup name with
    | some datum => ∃ value, middle.globals[id]? = some value ∧ datum.Shows legend value
    | none => middle.globals[id]? = none := by
  have mapped := ready.depicts.mapped
  split
  · next datum isGlobal =>
    obtain ⟨key, value, isKey, here⟩ := ready.depicts.named isGlobal
    have same := mapped.key present isKey (ready.filed.globals here)
    subst same
    obtain ⟨other, datum', isOther, isGlobal', shown⟩ := ready.depicts.globals here
    cases isKey.symm.trans isOther
    cases isGlobal.symm.trans isGlobal'
    exact ⟨value, here, shown⟩
  · next unknown =>
    cases here : middle.globals[id]? with
    | none => rfl
    | some value =>
      obtain ⟨other, datum', isOther, isGlobal, _⟩ := ready.depicts.globals here
      cases told.symm.trans isOther
      cases unknown.symm.trans isGlobal

/-- The native function of a name, if there is one. -/
theorem Ready.host (ready : Ready world legend store items ⟨image, position, base⟩ calls frame middle)
    (told : legend id = some (.string name)) (present : middle.heap.get? id = some (.string name)) :
    match world.native? name with
    | some _ => ∃ object, middle.natives[id]? = some object ∧ legend object = some (.native name)
    | none => middle.natives[id]? = none := by
  have mapped := ready.depicts.mapped
  split
  · next host isHost =>
    obtain ⟨key, object, isKey, here⟩ := ready.depicts.hosts isHost
    have same := mapped.key present isKey (ready.filed.natives here).1
    subst same
    obtain ⟨other, isOther, isNative⟩ := ready.depicts.natives here
    cases isKey.symm.trans isOther
    exact ⟨object, here, isNative⟩
  · next unknown =>
    cases here : middle.natives[id]? with
    | none => rfl
    | some object =>
      obtain ⟨other, isOther, isNative⟩ := ready.depicts.natives here
      cases told.symm.trans isOther
      obtain ⟨_, host, isObject⟩ := ready.filed.natives here
      cases mapped.fits isNative isObject with
      | native isHost =>
        rw [isHost] at unknown
        cases unknown

theorem readGlobal_defined (isGlobal : store.globals.lookup name = some datum) :
    readGlobal world name store = .ok datum store := by
  simp only [readGlobal, bind, EStateM.bind, get, getThe, MonadStateOf.get, EStateM.get, isGlobal]
  rfl

theorem readGlobal_native {host : Native} (isGlobal : store.globals.lookup name = none)
    (isHost : world.native? name = some host) :
    readGlobal world name store = .ok (.native name) store := by
  simp only [readGlobal, bind, EStateM.bind, get, getThe, MonadStateOf.get, EStateM.get, isGlobal, isHost]
  rfl

theorem readGlobal_undefined (isGlobal : store.globals.lookup name = none)
    (isHost : world.native? name = none) :
    readGlobal world name store = .error (.fault (.undefinedVariable name)) store := by
  simp only [readGlobal, bind, EStateM.bind, get, getThe, MonadStateOf.get, EStateM.get, isGlobal, isHost]
  rfl

theorem Shown.reads_global
    (shown : Shown world ⟨store, items, ⟨image, position, base⟩ :: calls⟩ machine)
    (here : image.setting.body.code[position]? = some ⟨.getGlobal, index, 0⟩)
    (constant : image.setting.body.constants[index]? = some (.ref id))
    (string : image.setting.heap.string? id = some name) :
    Tracks bound (fun datum store => Shown world
      ⟨store, items ++ [.value datum], ⟨image, position + 1, base⟩ :: calls⟩) machine
      (readGlobal world name store) := by
  cases isGlobal : store.globals.lookup name with
  | some datum =>
    rw [readGlobal_defined isGlobal]
    refine shown.pushes here fun ready done next => ?_
    simp only [Machine.delivers_bind] at next
    simp only [Machine.execute, Machine.getGlobal, Machine.delivers_bind]
    refine ready.name constant string fun told present => ?_
    have found := ready.global told present
    rw [isGlobal] at found
    obtain ⟨value, isValue, isShown⟩ := found
    simp only [Machine.delivers_get, isValue]
    exact next value isShown
  | none =>
    cases isHost : world.native? name with
    | some host =>
      rw [readGlobal_native isGlobal isHost]
      refine shown.pushes here fun ready done next => ?_
      simp only [Machine.delivers_bind] at next
      simp only [Machine.execute, Machine.getGlobal, Machine.delivers_bind]
      refine ready.name constant string fun told present => ?_
      have unknown := ready.global told present
      have found := ready.host told present
      rw [isGlobal] at unknown
      rw [isHost] at found
      obtain ⟨object, isObject, isNative⟩ := found
      simp only [Machine.delivers_get, unknown, isObject]
      exact next _ (.native isNative)
    | none =>
      rw [readGlobal_undefined isGlobal isHost]
      refine Or.inr (shown.strikes here fun ready => ?_)
      simp only [Machine.execute, Machine.getGlobal, Machine.delivers_bind]
      refine ready.name constant string fun told present => ?_
      have unknown := ready.global told present
      have unknown' := ready.host told present
      rw [isGlobal] at unknown
      rw [isHost] at unknown'
      simp only [Machine.delivers_get, unknown, unknown']
      exact ⟨rfl, ready.depicts.output⟩

/-- A global is defined, or it is assigned to. -/
theorem Ready.stores (ready : Ready world legend store (lower ++ [.value datum]) ⟨image, position, base⟩ calls
      frame middle)
    (told : legend id = some (.string name)) (present : middle.heap.get? id = some (.string name))
    {done : Unit → Machine → Prop} {struck : Fault → Machine → Prop}
    (next : ∀ after, Depicts world legend ⟨{ store with globals := (name, datum) :: store.globals },
      lower ++ [.value datum], ⟨image, position, base⟩ :: calls⟩ after → done () after) :
    Delivers (Machine.storeGlobal id name) middle done struck := by
  simp only [Machine.storeGlobal, Machine.delivers_bind]
  refine Machine.delivers_peek fun value isTop => ?_
  have isShown := ready.depicts.top isTop
  have mapped := ready.depicts.mapped
  split
  · next node => exact absurd rfl (Shows.plain isShown node)
  · refine next _ { ready.depicts with
      mapped := mapped.withStore rfl (fun _ _ same => same) (fun _ _ same => same) (Nat.le_refl _)
      stack := ready.depicts.stack.imp fun _ _ shown => shown.mono (Legend.Within.refl _) fun _ _ _ same => same
      globals := fun {key other} here => ?_
      named := fun {text datum'} isGlobal => ?_ }
    · change (middle.globals.insert id value)[key]? = some other at here
      rw [Std.TreeMap.getElem?_insert] at here
      split at here
      · next same =>
        cases here
        have same := Std.LawfulEqCmp.eq_of_compare same
        subst same
        exact ⟨name, datum, told, by simp, isShown⟩
      · next apart =>
        obtain ⟨text, datum', isText, isGlobal, isShown'⟩ := ready.depicts.globals here
        refine ⟨text, datum', isText, ?_, isShown'⟩
        have differs : (text == name) = false := by
          refine beq_false_of_ne fun same => apart ?_
          subst same
          rw [mapped.key present isText (ready.filed.globals here)]
          exact Std.ReflCmp.compare_self
        simp only [List.lookup_cons, differs]
        exact isGlobal
    · change ∃ key value', legend key = some (.string text) ∧
        (middle.globals.insert id value)[key]? = some value'
      change ((name, datum) :: store.globals).lookup text = some datum' at isGlobal
      rw [List.lookup_cons] at isGlobal
      split at isGlobal
      · next same =>
        rw [eq_of_beq same]
        exact ⟨id, value, told, by simp⟩
      · obtain ⟨key, value', isKey, here⟩ := ready.depicts.named isGlobal
        refine ⟨key, if compare id key = .eq then value else value', isKey, ?_⟩
        rw [Std.TreeMap.getElem?_insert]
        split
        · rfl
        · exact here

theorem Shown.defines_global
    (shown : Shown world ⟨store, lower ++ [.value datum], ⟨image, position, base⟩ :: calls⟩ machine)
    (here : image.setting.body.code[position]? = some ⟨.defineGlobal, index, 0⟩)
    (constant : image.setting.body.constants[index]? = some (.ref id))
    (string : image.setting.heap.string? id = some name) :
    Tracks bound (fun _ store => Shown world ⟨store, lower, ⟨image, position + 1, base⟩ :: calls⟩) machine
      (defineGlobal name datum store) := by
  refine shown.goes here fun ready => ?_
  simp only [Machine.execute, Machine.defineGlobal, Machine.delivers_bind]
  refine ready.name constant string fun told present => ?_
  refine ready.stores told present fun after depicts => ?_
  exact Machine.delivers_pop fun value _ => ⟨rfl, _, depicts.pop (by simp)⟩

theorem Shown.writes_global
    (shown : Shown world ⟨store, lower ++ [.value datum], ⟨image, position, base⟩ :: calls⟩ machine)
    (here : image.setting.body.code[position]? = some ⟨.setGlobal, index, 0⟩)
    (constant : image.setting.body.constants[index]? = some (.ref id))
    (string : image.setting.heap.string? id = some name) :
    Tracks bound (fun _ store => Shown world
      ⟨store, lower ++ [.value datum], ⟨image, position + 1, base⟩ :: calls⟩) machine
      (writeGlobal name datum store) := by
  have look : writeGlobal name datum store = match store.globals.lookup name with
      | some _ => defineGlobal name datum store
      | none => .error (.fault (.undefinedVariable name)) store := by
    change (match store.globals.lookup name with
      | some _ => defineGlobal name datum
      | none => fault (.undefinedVariable name)) store = _
    cases store.globals.lookup name <;> rfl
  rw [look]
  cases isGlobal : store.globals.lookup name with
  | some old =>
    refine shown.goes here fun ready => ?_
    simp only [Machine.execute, Machine.setGlobal, Machine.delivers_bind]
    refine ready.name constant string fun told present => ?_
    have found := ready.global told present
    rw [isGlobal] at found
    obtain ⟨value, isValue, _⟩ := found
    simp only [Machine.delivers_get, isValue, Option.isNone_some, Bool.false_eq_true, if_false]
    exact ready.stores told present fun after depicts => ⟨rfl, _, depicts⟩
  | none =>
    refine Or.inr (shown.strikes here fun ready => ?_)
    simp only [Machine.execute, Machine.setGlobal, Machine.delivers_bind]
    refine ready.name constant string fun told present => ?_
    have unknown := ready.global told present
    rw [isGlobal] at unknown
    simp only [Machine.delivers_bind, Machine.delivers_get, unknown, Option.isNone_none, if_true]
    exact ⟨rfl, ready.depicts.output⟩

end Globals

end ScriptMachine.Source
