import ScriptMachine.Proofs.Source.Scoping

set_option autoImplicit false

/- Calls. A function runs in a frame of its own on top of its arguments, a native function takes its
arguments and leaves a result in their place. -/
namespace ScriptMachine.Source

open Machine (Delivers Midway)

variable {world : World} {legend : Legend} {store : Store} {items lower : List Item} {image called : Image}
  {position base bound fewer : Nat} {calls : List Call} {call : Call} {frame : Frame}
  {machine middle : Machine} {struck : Fault → Machine → Prop} {run : Runner} {datum callee : Datum}
  {arguments : List Datum} {code : Instruction}

section Steps

/-- An instruction leads to one of some pictures, unless the stack overflows. -/
theorem Shown.moves (place : Picture → Prop)
    (shown : Shown world ⟨store, items, ⟨image, position, base⟩ :: calls⟩ machine)
    (here : image.setting.body.code[position]? = some code)
    (executes : ∀ {legend : Legend} {frame : Frame} {middle : Machine},
      Ready world legend store items ⟨image, position + 1, base⟩ calls frame middle →
      Delivers (Machine.execute ⟨frame, image.setting.body⟩ code) middle
        (fun progress after => progress = .running ∧
          ∃ legend picture, place picture ∧ Depicts world legend picture after)
        fun fault _ => fault = .stackOverflow) :
    Overflows machine ∨ ∃ last picture, Machine.Advances 1 machine last ∧ place picture ∧
      Shown world picture last := by
  obtain ⟨legend, frame, middle, fetches, ready⟩ := shown.ready here
  obtain ⟨-, program, midway⟩ := shown
  have delivers := executes ready
  have safe := Machine.safe_step midway.sound
  unfold Delivers at delivers
  rw [← Shown.step_eq fetches] at delivers
  rw [Machine.Safe] at safe
  split at delivers
  · next progress after ran =>
    obtain ⟨rfl, legend, picture, isPlace, depicts⟩ := delivers
    exact Or.inr ⟨after, picture, .more ran (.none after), isPlace, ⟨legend, depicts⟩, program, midway.step ran⟩
  · next error after ran =>
    exact Or.inl ⟨1, error, after.reset, by rw [Machine.run, ran], delivers⟩
  · next after ran =>
    rw [ran] at safe
    exact safe.elim

end Steps

section Frames

/-- What is on the stack of a machine that shows a picture is no struct that lives in a call. -/
theorem Item.Shows.plain {item : Item} {value : Value} (shown : item.Shows legend store value)
    (node : NodeId) : value ≠ .stack node := by
  cases shown with
  | value shown => exact Source.Shows.plain shown node
  | callee object => simp
  | cell _ _ shown => exact Source.Shows.plain shown node

/-- There is nothing to be copied. -/
theorem delivers_copyArguments {done : Unit → Machine → Prop}
    (depicts : Depicts world legend ⟨store, items, calls⟩ machine) (next : done () machine) (count : Nat)
    {index : Nat} : Delivers (Machine.copyArguments index count) machine done struck := by
  induction count generalizing index with
  | zero => exact next
  | succ count ih =>
    simp only [Machine.copyArguments, Machine.delivers_bind]
    refine Machine.delivers_slot fun value here => ?_
    split
    · next node =>
      have inside : index < items.length := depicts.size ▸ (Array.getElem?_eq_some_iff.mp here).1
      have isShown := depicts.shows (List.getElem?_eq_getElem inside) here
      exact absurd rfl (isShown.plain node)
    · exact ih

/-- The frame of a function is put on top of its arguments. -/
theorem Ready.calls_function {closure : ObjectId} {source : Option Nat}
    (ready : Ready world legend store (lower ++ .value callee :: arguments.map .value) call calls frame middle)
    (told : legend closure = some (.closure source called))
    (arity : called.setting.body.arity = arguments.length) :
    Delivers (Machine.callClosure closure arguments.length) middle
      (fun _ after => Depicts world legend ⟨store, lower ++ .value callee :: arguments.map .value,
        ⟨called, 0, lower.length⟩ :: call :: calls⟩ after)
      fun fault _ => fault = .stackOverflow := by
  have size := ready.depicts.size
  simp only [List.length_append, List.length_cons, List.length_map] at size
  simp only [Machine.callClosure, Machine.delivers_bind, Machine.delivers_get]
  refine Machine.delivers_given fun body isBody => ?_
  obtain rfl := ready.depicts.mapped.body told isBody
  simp only [arity, bne_self_eq_false, Bool.false_eq_true, if_false, Machine.delivers_bind, Machine.delivers_get]
  split
  · rfl
  · split
    · exact Machine.delivers_goWrong
    · simp only [Machine.delivers_modify, Machine.delivers_bind]
      have begun : Depicts world legend ⟨store, lower ++ .value callee :: arguments.map .value,
          ⟨called, 0, lower.length⟩ :: call :: calls⟩
          { middle with frames :=
            { closure, base := middle.stack.size - arguments.length - 1 } :: middle.frames } :=
        { ready.depicts with
          calls := .cons ⟨⟨source, told⟩, rfl, by simp only; omega⟩ ready.depicts.calls }
      exact delivers_copyArguments begun begun _

/-- A function takes as many arguments as it has parameters. -/
theorem Ready.calls_wrongly {closure : ObjectId} {source : Option Nat}
    (ready : Ready world legend store items call calls frame middle)
    (told : legend closure = some (.closure source called))
    (arity : called.setting.body.arity ≠ arguments.length) :
    Delivers (Machine.callClosure closure arguments.length) middle (fun _ _ => False)
      fun struck after => struck = .wrongArity called.setting.body.arity arguments.length ∧
        after.output.toList = store.output := by
  simp only [Machine.callClosure, Machine.delivers_bind, Machine.delivers_get]
  refine Machine.delivers_given fun body isBody => ?_
  obtain rfl := ready.depicts.mapped.body told isBody
  have differs : (arguments.length != called.setting.body.arity) = true := by
    simpa using fun same => arity same.symm
  simp only [differs, if_true]
  exact ⟨rfl, ready.depicts.output⟩

end Frames

section Functions

/-- What a call has below its arguments: a receiver, or the function that is called. -/
def bottom (isMethod : Bool) (cell : Nat) (flag : Bool) : Item :=
  if isMethod then .cell cell flag else .callee

/-- The environment in which a function binds its parameters. -/
def begun (isMethod : Bool) (cell : Nat) (outer : Environment) : Environment :=
  if isMethod then (ascii "self", cell) :: outer else outer

/-- A machine keeps track of how functions are run. -/
def Tracked (world : World) (run : Runner) (bound : Nat) : Prop :=
  ∀ {routine : Routine} {outer : Environment} {arguments : List Datum} {store : Store} {image : Image}
    {name : Text} {isMethod : Bool} {lower : List Item} {cell : Nat} {call : Call} {calls : List Call}
    {machine : Machine}, image.Runs name isMethod routine outer →
    arguments.length = routine.parameters.length →
    (∀ flag, Shown world ⟨store, lower ++ bottom isMethod cell flag :: arguments.map .value,
      ⟨image, 0, lower.length⟩ :: call :: calls⟩ machine) →
    Tracks bound (fun datum store => Shown world ⟨store, lower ++ [.value datum], call :: calls⟩) machine
      (run routine (begun isMethod cell outer) arguments
        ⟨calls.length + 2, lower.length + (arguments.length + 1)⟩ store)

theorem Image.Runs.arity {name : Text} {isMethod : Bool} {routine : Routine} {outer : Environment}
    (runs : image.Runs name isMethod routine outer) :
    image.setting.body.arity = routine.parameters.length := by
  obtain ⟨context, -, -, codes, -⟩ := runs
  cases routine
  exact codes.2.1

/-- What is called need not be remembered. -/
theorem Depicts.forget {slot id : Nat} (depicts : Depicts world legend ⟨store, items, calls⟩ machine)
    (here : items[slot]? = some (.value (.closure id))) :
    Depicts world legend ⟨store, items.set slot .callee, calls⟩ machine :=
  { depicts with
    mapped := depicts.mapped.replaced here rfl rfl
    stack := by
      refine rel_set_left depicts.stack slot fun value isValue => ?_
      rw [Array.getElem?_toList] at isValue
      cases depicts.shows here isValue with
      | value shown =>
        cases shown with
        | @closure _ _ object _ => exact .callee object }

/-- What is called lies below its arguments. -/
theorem Ready.finds {done : Machine.Progress → Machine → Prop} {body : Prototype}
    (ready : Ready world legend store (lower ++ .value callee :: arguments.map .value) call calls frame middle)
    (next : ∀ value, callee.Shows legend value →
      (∀ object, value.object? = some object → ∃ there, middle.heap.get? object = some there) →
      Delivers (Machine.callValue value arguments.length >>= fun _ => pure .running) middle done struck) :
    Delivers (Machine.execute ⟨frame, body⟩ ⟨.call, arguments.length, 0⟩) middle done struck := by
  have size := ready.depicts.size
  simp only [List.length_append, List.length_cons, List.length_map] at size
  have isItem : (lower ++ .value callee :: arguments.map .value)[lower.length]? = some (.value callee) := by simp
  simp only [Machine.execute, Machine.delivers_bind] at next ⊢
  refine Machine.delivers_operand (Machine.delivers_peek fun value isValue => ?_)
  rw [Int.toNat_natCast] at isValue ⊢
  rw [show middle.stack.size - 1 - arguments.length = lower.length by omega] at isValue
  cases ready.depicts.shows isItem isValue with
  | value isShown =>
    exact next value isShown fun object isObject =>
      Option.isSome_iff_exists.mp (ready.supplied object (reaches_slot isValue isObject))

/-- The instruction finds a closure of the function that is shown. -/
theorem Ready.finds_closure {done : Machine.Progress → Machine → Prop} {body : Prototype} {id : Nat}
    (ready : Ready world legend store (lower ++ .value (.closure id) :: arguments.map .value) call calls
      frame middle)
    (next : ∀ object called closure, legend object = some (.closure (some id) called) →
      store.closures[id]? = some closure → called.Runs closure.name false closure.routine closure.environment →
      Delivers (Machine.callClosure object arguments.length >>= fun _ => pure .running) middle done struck) :
    Delivers (Machine.execute ⟨frame, body⟩ ⟨.call, arguments.length, 0⟩) middle done struck := by
  refine ready.finds fun value isShown isThere => ?_
  cases isShown with
  | @closure _ called object told =>
    obtain ⟨closure, isClosure, runs⟩ := (ready.depicts.mapped.grounded told).2 id rfl
    obtain ⟨_, present⟩ := isThere object rfl
    cases ready.depicts.mapped.fits told present with
    | closure _ _ _ =>
      have goes := next object called closure told isClosure runs
      simp only [Machine.callValue, Machine.delivers_bind, Machine.delivers_get, present] at goes ⊢
      exact goes

/-- A function that a program has made is called. -/
theorem Shown.calls_closure {id : Nat} (tracked : Tracked world run fewer) (few : bound ≤ fewer + 1)
    (shown : Shown world ⟨store, lower ++ .value (.closure id) :: arguments.map .value,
      ⟨image, position, base⟩ :: calls⟩ machine)
    (here : image.setting.body.code[position]? = some ⟨.call, arguments.length, 0⟩) :
    Tracks bound (fun datum store => Shown world
      ⟨store, lower ++ [.value datum], ⟨image, position + 1, base⟩ :: calls⟩) machine
      (callDatum world run (.closure id) arguments
        ⟨calls.length + 1, lower.length + (arguments.length + 1)⟩ store) := by
  have isItem : (lower ++ .value (.closure id) :: arguments.map .value)[lower.length]?
      = some (.value (.closure id)) := by simp
  obtain ⟨closure, isClosure⟩ : ∃ closure, store.closures[id]? = some closure :=
    shown.acts here fun ready => ready.finds_closure fun _ _ closure _ isClosure _ =>
      Delivers.constant ⟨closure, isClosure⟩ _ _
  have look : callDatum world run (.closure id) arguments
        ⟨calls.length + 1, lower.length + (arguments.length + 1)⟩ store =
      callRoutine run closure.routine (return closure.environment) arguments
        ⟨calls.length + 1, lower.length + (arguments.length + 1)⟩ store := by
    change (found store.closures[id]? >>= fun closure => callRoutine run closure.routine
      (return closure.environment) arguments _ : Eval Datum) store = _
    rw [isClosure]
    rfl
  rw [look]
  unfold callRoutine
  by_cases arity : arguments.length = closure.routine.parameters.length
  · have goes := shown.moves (fun picture => ∃ called : Image,
        called.Runs closure.name false closure.routine closure.environment ∧
          picture = ⟨store, lower ++ .value (.closure id) :: arguments.map .value,
            ⟨called, 0, lower.length⟩ :: ⟨image, position + 1, base⟩ :: calls⟩) here fun ready => by
      refine ready.finds_closure fun object called closure' told isClosure' runs => ?_
      cases isClosure.symm.trans isClosure'
      rw [Machine.delivers_bind]
      refine (ready.calls_function told (by rw [runs.arity, arity])).mono (fun _ after depicts => ?_)
        fun _ _ struck => struck
      exact ⟨rfl, _, _, ⟨called, runs, rfl⟩, depicts⟩
    have same : (arguments.length != closure.routine.parameters.length) = false := by simpa using arity
    simp only [same, Bool.false_eq_true, if_false, pure_bind]
    obtain overflows | ⟨last, _, advances, ⟨called, runs, rfl⟩, shown⟩ := goes
    · have arrives : Arrives machine fun _ => False := Or.inl overflows
      exact Arrives.tracks arrives fun _ impossible => impossible.elim
    · have begins : ∀ flag, Shown world ⟨store, lower ++ bottom false 0 flag :: arguments.map .value,
          ⟨called, 0, lower.length⟩ :: ⟨image, position + 1, base⟩ :: calls⟩ last := fun flag =>
        shown.regard fun depicts => by simpa [bottom] using depicts.forget isItem
      exact ((tracked runs arity begins).behind advances).fewer few
  · have differs : (arguments.length != closure.routine.parameters.length) = true := by simpa using arity
    simp only [differs, if_true]
    refine Or.inr (shown.strikes here fun ready => ?_)
    refine ready.finds_closure fun object called closure' told isClosure' runs => ?_
    cases isClosure.symm.trans isClosure'
    rw [Machine.delivers_bind, ← runs.arity]
    exact (ready.calls_wrongly told (by rw [runs.arity]; exact fun same => arity same.symm)).mono
      (fun _ _ impossible => impossible.elim) fun _ _ struck => struck

end Functions

section Natives

variable {name : Text} {host : Native} {action : Builtin} {values : List Value} {value : Value}

/-- Where only values are at work no variable is captured. -/
theorem Depicts.low {upper : List Item}
    (depicts : Depicts world legend ⟨store, lower ++ upper, calls⟩ machine)
    (plain : ∀ item ∈ upper, item.cell? = none) {slot : Nat} {object : ObjectId}
    (here : machine.heap.get? object = some (.cell (.onStack slot))) : slot < lower.length := by
  obtain ⟨cell, isCell, _⟩ := depicts.mapped.opened here
  rw [List.getElem?_append] at isCell
  split at isCell
  · assumption
  · have isPlain := plain _ (List.mem_of_getElem? isCell)
    cases isPlain

theorem plain_of_values (callee : Datum) (arguments : List Datum) :
    ∀ item ∈ Item.value callee :: arguments.map .value, item.cell? = none := by
  intro item member
  rcases List.mem_cons.mp member with rfl | member
  · rfl
  · obtain ⟨datum, _, rfl⟩ := List.mem_map.mp member
    rfl

/-- The arguments on top of the stack. -/
structure Taken (legend : Legend) (arguments : List Datum) (middle : Machine) (values : List Value) : Prop where
  shown : List.Forall₂ (Datum.Shows legend) arguments values
  reached : ∀ value ∈ values, ∀ id, value.object? = some id →
    Heap.Reaches middle.heap.objects middle.roots id

theorem Ready.takes
    (ready : Ready world legend store (lower ++ .value callee :: arguments.map .value) call calls frame middle) :
    Taken legend arguments middle
      (middle.stack.extract (middle.stack.size - arguments.length) middle.stack.size).toList := by
  have size := ready.depicts.size
  simp only [List.length_append, List.length_cons, List.length_map] at size
  have start : middle.stack.size - arguments.length = lower.length + 1 := by omega
  refine ⟨?_, fun value member id isObject => ?_⟩
  · refine forall₂_of_getElem? (by simp; omega) fun index datum value here there => ?_
    rw [Array.getElem?_toList, Array.getElem?_extract, start] at there
    split at there
    · have isItem : (lower ++ .value callee :: arguments.map .value)[lower.length + 1 + index]?
          = some (Item.value datum) := by
        rw [List.getElem?_append_right (by omega), show lower.length + 1 + index - lower.length = index + 1 by omega,
          List.getElem?_cons_succ, List.getElem?_map, here]
        rfl
      cases ready.depicts.shows isItem there with
      | value shown => exact shown
    · cases there
  · obtain ⟨index, there⟩ := List.mem_iff_getElem?.mp member
    rw [Array.getElem?_toList, Array.getElem?_extract] at there
    split at there
    · exact reaches_slot there isObject
    · cases there

/-- A native function is called. -/
theorem Ready.calls_host {done : Machine.Progress → Machine → Prop}
    (ready : Ready world legend store (lower ++ .value (.native name) :: arguments.map .value)
      call calls frame middle) {body : Prototype}
    (next : ∀ host, world.native? name = some host →
      Delivers (Machine.callNative host arguments.length >>= fun _ => pure .running) middle done struck) :
    Delivers (Machine.execute ⟨frame, body⟩ ⟨.call, arguments.length, 0⟩) middle done struck := by
  refine ready.finds fun value isShown isThere => ?_
  cases isShown with
  | @native _ object told =>
    obtain ⟨_, present⟩ := isThere object rfl
    cases ready.depicts.mapped.fits told present with
    | native isHost =>
      have goes := next _ isHost
      simp only [Machine.callValue, Machine.delivers_bind, Machine.delivers_get, present] at goes ⊢
      exact goes

/-- The result of a native function takes the place of its arguments. -/
theorem Ready.applies {store' : Store}
    (ready : Ready world legend store (lower ++ .value callee :: arguments.map .value) call calls frame middle)
    (isAction : host.action = some action)
    (runs : ∀ values, Taken legend arguments middle values →
      Delivers (Machine.runBuiltin action values) middle
        (fun value after => ∃ more, datum.Shows more value ∧
          Depicts world more ⟨store', lower ++ .value callee :: arguments.map .value, call :: calls⟩ after)
        fun fault _ => fault = .stackOverflow) :
    Delivers (Machine.applyNative host arguments.length) middle
      (fun _ after => ∃ more, Depicts world more ⟨store', lower ++ [.value datum], call :: calls⟩ after)
      fun fault _ => fault = .stackOverflow := by
  have size := ready.depicts.size
  simp only [List.length_append, List.length_cons, List.length_map] at size
  simp only [Machine.applyNative, Machine.delivers_bind, Machine.delivers_get, isAction]
  split
  · exact Machine.delivers_goWrong
  · simp only [Machine.delivers_bind, Machine.delivers_get]
    refine (runs _ ready.takes).mono (fun value after => ?_) fun _ _ struck => struck
    rintro ⟨more, shown, depicts⟩
    have cut := depicts.shrink (depicts.low (plain_of_values callee arguments))
    rw [List.take_left, show lower.length = middle.stack.size - arguments.length - 1 by omega] at cut
    simp only [Machine.shrink, Machine.delivers_modify]
    exact Machine.delivers_push rfl ⟨more, cut.push rfl (.value shown)⟩

/-- A string is found, or it is made. -/
theorem Depicts.interns {pinned : List ObjectId} (text : Text)
    (depicts : Depicts world legend ⟨store, items, calls⟩ machine) :
    Delivers (Machine.allocating pinned (Heap.intern · text)) machine
      (fun id after => ∃ more, legend.Within more ∧ more id = some (.string text) ∧
        Depicts world more ⟨store, items, calls⟩ after) struck := by
  have mapped := depicts.mapped
  refine Machine.delivers_allocating (fun roots => ?_) fun roots id heap ran => ?_
  · obtain ⟨id, after, ran, _⟩ := Heap.intern_unlimited roots text mapped.unlimited
    exact ⟨id, after, ran⟩
  · obtain ⟨_, _, ran', config⟩ := Heap.intern_unlimited roots text mapped.unlimited
    cases ran.symm.trans ran'
    obtain ⟨rfl, isFiled⟩ | ⟨ready, thins, unfiled, rfl, rfl⟩ := Heap.intern_ok ran
    · have here := mapped.tidy.filed.mp isFiled
      cases told : legend id with
      | some entity =>
        cases mapped.fits told here
        exact ⟨legend, Legend.Within.refl _, told, depicts⟩
      | none =>
        have larger : legend.Within (legend.adding id (.string text)) := Legend.within_adding told
        refine ⟨_, larger, Legend.adding_self, depicts.larger larger ?_⟩
        refine mapped.told told (mapped.tidy.bounded here) trivial (fun object found => ?_)
          fun _ _ _ alike => by cases alike
        cases here.symm.trans found
        exact .string text
    · have thinned := mapped.thin thins config
      have larger : legend.Within (legend.adding ready.nextId (.string text)) :=
        Legend.within_adding thinned.new
      refine ⟨_, larger, Legend.adding_self, depicts.larger larger ?_⟩
      exact thinned.gained (Heap.gains_file thinned.tidy unfiled) rfl trivial (.string text) (by simp)
        fun _ _ _ alike => by cases alike

theorem Taken.first (taken : Taken legend arguments middle values) :
    (arguments.head?.getD .nil).Shows legend (values.head?.getD .nil) ∧
      ∀ id, (values.head?.getD .nil).object? = some id →
        Heap.Reaches middle.heap.objects middle.roots id := by
  obtain ⟨shown, reached⟩ := taken
  cases shown with
  | nil => exact ⟨.nil, fun _ isObject => by cases isObject⟩
  | cons first _ => exact ⟨first, reached _ List.mem_cons_self⟩

theorem Taken.text (taken : Taken legend arguments middle values)
    (ready : Ready world legend store items call calls frame middle) :
    middle.view.text (values.head?.getD .nil) =
      store.text world (store.records.size + 1) [] false (arguments.head?.getD .nil) :=
  text_shown ready.depicts.mapped ready.depicts.declares (Supplied.alive ready.supplied) taken.first.1
    taken.first.2

/-- A native function that takes these arguments is run. -/
theorem callNative_accepted (accepted : Machine.accepts host arguments.length = true) (depth : Depth)
    (isAction : host.action = some action) :
    callNative world host arguments depth = runNative world action arguments depth := by
  unfold Machine.accepts at accepted
  unfold callNative
  cases isArity : host.arity with
  | none => simp only [isAction]
  | some arity =>
    rw [isArity, Option.all_some, beq_iff_eq] at accepted
    simp only [isAction, accepted, bne_self_eq_false, Bool.false_eq_true, if_false]

theorem callNative_idle (accepted : Machine.accepts host arguments.length = true) (depth : Depth)
    (isAction : host.action = none) :
    callNative world host arguments depth store
      = .error (.fault (.host (ascii "native '" ++ host.name ++ ascii "' has no callback"))) store := by
  unfold Machine.accepts at accepted
  unfold callNative
  cases isArity : host.arity with
  | none =>
    simp only [isAction]
    rfl
  | some arity =>
    rw [isArity, Option.all_some, beq_iff_eq] at accepted
    simp only [isAction, accepted, bne_self_eq_false, Bool.false_eq_true, if_false]
    rfl

theorem callNative_machine (accepted : Machine.accepts host arguments.length = true) :
    Machine.callNative host arguments.length = Machine.applyNative host arguments.length := by
  unfold Machine.accepts at accepted
  unfold Machine.callNative
  cases isArity : host.arity with
  | none => rfl
  | some arity =>
    rw [isArity, Option.all_some, beq_iff_eq] at accepted
    simp only [accepted, bne_self_eq_false, Bool.false_eq_true, if_false]

/-- A native function gives a result. -/
theorem Shown.answers {store' : Store}
    (shown : Shown world ⟨store, lower ++ .value (.native name) :: arguments.map .value,
      ⟨image, position, base⟩ :: calls⟩ machine)
    (here : image.setting.body.code[position]? = some ⟨.call, arguments.length, 0⟩)
    (isHost : world.native? name = some host) (accepted : Machine.accepts host arguments.length = true)
    (isAction : host.action = some action)
    (runs : ∀ {legend : Legend} {frame : Frame} {middle : Machine} {values : List Value},
      Ready world legend store (lower ++ .value (.native name) :: arguments.map .value)
        ⟨image, position + 1, base⟩ calls frame middle → Taken legend arguments middle values →
      Delivers (Machine.runBuiltin action values) middle
        (fun value after => ∃ more, datum.Shows more value ∧ Depicts world more
          ⟨store', lower ++ .value (.native name) :: arguments.map .value,
            ⟨image, position + 1, base⟩ :: calls⟩ after)
        fun fault _ => fault = .stackOverflow) :
    Arrives machine (Shown world
      ⟨store', lower ++ [.value datum], ⟨image, position + 1, base⟩ :: calls⟩) := by
  refine shown.goes here fun ready => ready.calls_host fun host' isHost' => ?_
  cases isHost.symm.trans isHost'
  rw [Machine.delivers_bind, callNative_machine accepted]
  exact (ready.applies isAction fun values taken => runs ready taken).mono
    (fun _ _ depicts => ⟨rfl, depicts⟩) fun _ _ struck => struck

/-- A native function strikes with a fault. -/
theorem Shown.refuses {fault : Fault}
    (shown : Shown world ⟨store, lower ++ .value (.native name) :: arguments.map .value,
      ⟨image, position, base⟩ :: calls⟩ machine)
    (here : image.setting.body.code[position]? = some ⟨.call, arguments.length, 0⟩)
    (isHost : world.native? name = some host) (accepted : Machine.accepts host arguments.length = true)
    (isAction : host.action = some action)
    (runs : ∀ {legend : Legend} {frame : Frame} {middle : Machine} {values : List Value},
      Ready world legend store (lower ++ .value (.native name) :: arguments.map .value)
        ⟨image, position + 1, base⟩ calls frame middle → Taken legend arguments middle values →
      Delivers (Machine.runBuiltin action values) middle (fun _ _ => False)
        fun struck after => struck = fault ∧ after = middle) :
    Faults fault store.output machine := by
  refine shown.strikes here fun ready => ready.calls_host fun host' isHost' => ?_
  cases isHost.symm.trans isHost'
  rw [Machine.delivers_bind, callNative_machine accepted]
  simp only [Machine.applyNative, Machine.delivers_bind, Machine.delivers_get, isAction]
  split
  · exact Machine.delivers_goWrong
  · simp only [Machine.delivers_bind, Machine.delivers_get]
    refine (runs ready ready.takes).mono (fun _ _ impossible => impossible.elim) ?_
    rintro struck after ⟨rfl, rfl⟩
    exact ⟨rfl, ready.depicts.output⟩

/-- The next instruction asks for what only the machine knows. -/
theorem Shown.observes
    (shown : Shown world ⟨store, lower ++ .value (.native name) :: arguments.map .value,
      ⟨image, position, base⟩ :: calls⟩ machine)
    (here : image.setting.body.code[position]? = some ⟨.call, arguments.length, 0⟩)
    (isHost : world.native? name = some host) (accepted : Machine.accepts host arguments.length = true)
    (isAction : host.action = some action) (observes : action.observes = true) : Excepts machine := by
  obtain ⟨legend, frame, middle, fetches, ready⟩ := shown.ready here
  refine Or.inl ?_
  have size := ready.depicts.size
  simp only [List.length_append, List.length_cons, List.length_map] at size
  have isItem : (lower ++ .value (.native name) :: arguments.map .value)[lower.length]?
      = some (.value (.native name)) := by simp
  obtain ⟨value, isValue, isShown⟩ := ready.depicts.slot isItem
  have place : middle.stack.size - 1 - arguments.length = lower.length := by omega
  cases isShown with
  | value isShown =>
    cases isShown with
    | @native _ object told =>
      have isThere := ready.supplied object (reaches_slot isValue rfl)
      obtain ⟨_, present⟩ := Option.isSome_iff_exists.mp isThere
      cases ready.depicts.mapped.fits told present with
      | native isHost' =>
        cases isHost.symm.trans isHost'
        simp only [Machine.callsObserver, fetches, Machine.observing, Machine.called?, Int.toNat_natCast, place,
          isValue, Option.map_some, Option.any_some, Machine.observes, Machine.nativeCalled?, present, accepted,
          if_true, isAction, observes]

/-- A native function of some action is called. -/
theorem Shown.calls_action
    (shown : Shown world ⟨store, lower ++ .value (.native name) :: arguments.map .value,
      ⟨image, position, base⟩ :: calls⟩ machine)
    (here : image.setting.body.code[position]? = some ⟨.call, arguments.length, 0⟩)
    (isHost : world.native? name = some host) (accepted : Machine.accepts host arguments.length = true)
    (isAction : host.action = some action) :
    Tracks bound (fun datum store => Shown world
      ⟨store, lower ++ [.value datum], ⟨image, position + 1, base⟩ :: calls⟩) machine
      (runNative world action arguments ⟨calls.length + 1, lower.length + (arguments.length + 1)⟩ store) := by
  cases action with
  | double =>
    by_cases isNumber : ∃ value, arguments.head?.getD .nil = .number value
    · obtain ⟨value, isFirst⟩ := isNumber
      have look : runNative world .double arguments
          ⟨calls.length + 1, lower.length + (arguments.length + 1)⟩ store = .ok (.number (value * 2)) store := by
        simp only [runNative, isFirst]
        rfl
      rw [look]
      refine shown.answers here isHost accepted isAction fun {legend _ _ values} ready taken => ?_
      have first := taken.first.1
      rw [isFirst] at first
      simp only [Machine.runBuiltin]
      generalize values.head?.getD .nil = value' at first
      cases first
      exact ⟨legend, .number _, ready.depicts⟩
    · have look : runNative world .double arguments
          ⟨calls.length + 1, lower.length + (arguments.length + 1)⟩ store
            = .error (.fault (.host (ascii "Value is not number"))) store := by
        simp only [runNative]
        generalize arguments.head?.getD .nil = datum at isNumber
        cases datum with
        | number value => exact absurd ⟨value, rfl⟩ isNumber
        | nil | bool _ | string _ | closure _ | record _ | native _ => rfl
      rw [look]
      refine Or.inr (shown.refuses here isHost accepted isAction fun {_ _ _ values} _ taken => ?_)
      have first := taken.first.1
      simp only [Machine.runBuiltin]
      generalize values.head?.getD .nil = value at first
      cases value with
      | number value =>
        generalize arguments.head?.getD .nil = datum at first isNumber
        cases first
        exact absurd ⟨value, rfl⟩ isNumber
      | nil | bool _ | ref _ | stack _ => exact ⟨rfl, rfl⟩
  | argumentCount =>
    refine shown.answers here isHost accepted isAction fun {legend _ _ _} ready taken => ?_
    exact ⟨legend, by rw [← taken.shown.length_eq]; exact .number _, ready.depicts⟩
  | same =>
    refine shown.answers here isHost accepted isAction fun {legend _ _ _} ready taken => ?_
    exact ⟨legend, taken.first.1, ready.depicts⟩
  | text =>
    refine shown.answers here isHost accepted isAction fun {legend _ _ _} ready taken => ?_
    simp only [Machine.runBuiltin, Machine.delivers_bind, Machine.delivers_get, taken.text ready]
    refine (ready.depicts.interns _).mono ?_ fun _ _ struck => struck
    rintro id after ⟨more, _, told, depicts⟩
    exact ⟨more, .string told, depicts⟩
  | explode => exact Or.inr (shown.refuses here isHost accepted isAction fun _ _ => ⟨rfl, rfl⟩)
  | fault => exact Or.inr (shown.refuses here isHost accepted isAction fun _ _ => ⟨rfl, rfl⟩)
  | collect =>
    refine shown.answers here isHost accepted isAction fun {legend _ _ _} ready taken => ?_
    exact ⟨legend, .nil, ready.depicts.larger (Legend.Within.refl _)
      (ready.depicts.mapped.thin (Heap.thins_collect _ _) Heap.collect_config)⟩
  | stackSize =>
    refine shown.answers here isHost accepted isAction fun {legend _ middle _} ready taken => ?_
    have size := ready.depicts.size
    simp only [List.length_append, List.length_cons, List.length_map] at size
    exact ⟨legend, by rw [Machine.countValue, size]; exact .number _, ready.depicts⟩
  | frameCount =>
    refine shown.answers here isHost accepted isAction fun {legend _ middle _} ready taken => ?_
    have frames := ready.depicts.calls.length_eq
    exact ⟨legend, by rw [Machine.countValue, ← frames]; exact .number _, ready.depicts⟩
  | emit =>
    refine shown.answers here isHost accepted isAction fun {legend _ _ _} ready taken => ?_
    simp only [Machine.runBuiltin, Machine.write, Machine.delivers_bind, Machine.delivers_get,
      Machine.delivers_modify, taken.text ready]
    exact ⟨legend, taken.first.1, ready.depicts.write _⟩
  | clock | heapObjects | heapInterned | heapBytes | gcCycles | arenaBytes =>
    exact Arrives.refl (shown.observes here isHost accepted isAction rfl)

/-- A native function is called by its value. -/
theorem Shown.calls_native
    (shown : Shown world ⟨store, lower ++ .value (.native name) :: arguments.map .value,
      ⟨image, position, base⟩ :: calls⟩ machine)
    (here : image.setting.body.code[position]? = some ⟨.call, arguments.length, 0⟩) :
    Tracks bound (fun datum store => Shown world
      ⟨store, lower ++ [.value datum], ⟨image, position + 1, base⟩ :: calls⟩) machine
      (callDatum world run (.native name) arguments
        ⟨calls.length + 1, lower.length + (arguments.length + 1)⟩ store) := by
  obtain ⟨host, isHost⟩ : ∃ host, world.native? name = some host :=
    shown.acts here fun ready => ready.calls_host fun host isHost => Delivers.constant ⟨host, isHost⟩ _ _
  have look : callDatum world run (.native name) arguments
        ⟨calls.length + 1, lower.length + (arguments.length + 1)⟩ store =
      callNative world host arguments ⟨calls.length + 1, lower.length + (arguments.length + 1)⟩ store := by
    simp only [callDatum, isHost]
    rfl
  rw [look]
  -- a fault that strikes before the action is run
  have strikes : ∀ {fault : Fault}, (∀ middle : Machine, Delivers (Machine.callNative host arguments.length) middle
        (fun _ _ => False) fun struck after => struck = fault ∧ after = middle) →
      Faults fault store.output machine := by
    intro fault struck
    refine shown.strikes here fun {_ _ middle} ready => ready.calls_host fun host' isHost' => ?_
    cases isHost.symm.trans isHost'
    rw [Machine.delivers_bind]
    refine (struck middle).mono (fun _ _ impossible => impossible.elim) ?_
    rintro _ _ ⟨rfl, rfl⟩
    exact ⟨rfl, ready.depicts.output⟩
  cases accepted : Machine.accepts host arguments.length with
  | true =>
    cases isAction : host.action with
    | some action =>
      rw [callNative_accepted accepted _ isAction]
      exact shown.calls_action here isHost accepted isAction
    | none =>
      rw [callNative_idle accepted _ isAction]
      refine Or.inr (strikes fun middle => ?_)
      simp only [callNative_machine accepted, Machine.applyNative, Machine.delivers_bind, Machine.delivers_get,
        isAction]
      split
      · exact Machine.delivers_goWrong
      · exact ⟨rfl, rfl⟩
  | false =>
    cases isArity : host.arity with
    | none => simp [Machine.accepts, isArity] at accepted
    | some arity =>
      have differs : (arguments.length != arity) = true := by
        rw [bne_iff_ne]
        intro same
        simp [Machine.accepts, isArity, same] at accepted
      have refused : callNative world host arguments
          ⟨calls.length + 1, lower.length + (arguments.length + 1)⟩ store
            = .error (.fault (.wrongArity arity arguments.length)) store := by
        simp only [callNative, isArity, differs, if_true]
        rfl
      rw [refused]
      refine Or.inr (strikes fun middle => ?_)
      simp only [Machine.callNative, isArity, differs, if_true]
      exact ⟨rfl, rfl⟩

end Natives

section Values

/-- A value is called, if it can be. -/
theorem Shown.calls_value (tracked : Tracked world run fewer) (few : bound ≤ fewer + 1)
    (shown : Shown world ⟨store, lower ++ .value callee :: arguments.map .value,
      ⟨image, position, base⟩ :: calls⟩ machine)
    (here : image.setting.body.code[position]? = some ⟨.call, arguments.length, 0⟩) :
    Tracks bound (fun datum store => Shown world
      ⟨store, lower ++ [.value datum], ⟨image, position + 1, base⟩ :: calls⟩) machine
      (callDatum world run callee arguments
        ⟨calls.length + 1, lower.length + (arguments.length + 1)⟩ store) := by
  have refused : (∀ id, callee ≠ .closure id) → (∀ name, callee ≠ .native name) →
      Faults .notCallable store.output machine := by
    intro notClosure notNative
    refine shown.strikes here fun {legend _ middle} ready => ready.finds fun value isShown _ => ?_
    rw [Machine.delivers_bind]
    have struck : Delivers (Machine.fail .notCallable : Exec Unit) middle
        (fun _ m => Delivers (pure Machine.Progress.running) m (fun _ _ => False)
          fun struck after => struck = .notCallable ∧ after.output.toList = store.output)
        fun struck after => struck = .notCallable ∧ after.output.toList = store.output :=
      ⟨rfl, ready.depicts.output⟩
    cases isShown with
    | nil | bool _ | number _ => exact struck
    | string told | record told =>
      simp only [Machine.callValue, Machine.delivers_bind, Machine.delivers_get]
      split
      · next found => cases ready.depicts.mapped.fits told found
      · next found => cases ready.depicts.mapped.fits told found
      · exact struck
    | closure _ => exact absurd rfl (notClosure _)
    | native _ => exact absurd rfl (notNative _)
  cases callee with
  | closure id => exact shown.calls_closure tracked few here
  | native name => exact shown.calls_native here
  | nil | bool _ | number _ | string _ | record _ => exact Or.inr (refused (by simp) (by simp))

end Values

end ScriptMachine.Source
