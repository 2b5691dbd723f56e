import ScriptMachine.Proofs.Source.Capturing

set_option autoImplicit false

/- What an instruction does to the picture that a machine shows: a function is made and captures the
variables that it needs. -/
namespace ScriptMachine.Source

open Machine (Delivers Filed)

variable {world : World} {legend : Legend} {registry : Registry} {store : Store} {items : List Item}
  {heap : Heap} {image made : Image} {position base bound index : Nat} {calls : List Call} {frame : Frame}
  {machine middle : Machine} {struck : Fault → Machine → Prop}

section Heaps

/-- The legend tells more, and the heap holds what it tells. -/
theorem Depicts.larger {more : Legend} (depicts : Depicts world legend ⟨store, items, calls⟩ machine)
    (larger : legend.Within more) (mapped : Mapped world more machine.registry store items heap) :
    Depicts world more ⟨store, items, calls⟩ { machine with heap } where
  mapped := mapped
  stack := depicts.stack.imp fun _ _ shown => shown.mono larger fun _ _ _ same => same
  calls := depicts.calls.imp fun _ _ shown => shown.mono larger
  globals here := by
    obtain ⟨name, datum, told, isGlobal, shown⟩ := depicts.globals here
    exact ⟨name, datum, larger told, isGlobal, shown.mono larger⟩
  named isGlobal := by
    obtain ⟨key, value, told, here⟩ := depicts.named isGlobal
    exact ⟨key, value, larger told, here⟩
  natives here := by
    obtain ⟨name, told, told'⟩ := depicts.natives here
    exact ⟨name, larger told, larger told'⟩
  hosts isHost := by
    obtain ⟨key, id, told, here⟩ := depicts.hosts isHost
    exact ⟨key, id, larger told, here⟩
  declares := depicts.declares.mono larger
  output := depicts.output

/-- An object is allocated that the legend has not told of. -/
theorem Depicts.allocates {pinned : List ObjectId} (object : Object) (entity : Entity)
    (depicts : Depicts world legend ⟨store, items, calls⟩ machine)
    (plain : ∀ text, object ≠ .string text)
    (grounded : ∀ {more : Legend}, legend.Within more → entity.Grounded more machine.registry store)
    (fits : ∀ {more : Legend}, legend.Within more →
      entity.Fits world more machine.registry store items object)
    (opened : ∀ slot, object = .cell (.onStack slot) →
      ∃ cell, items[slot]? = some (.cell cell true) ∧ entity = .cell cell)
    (fresh : ∀ other told, legend other = some told → entity.Alike told →
      (machine.heap.get? other).isSome = false) :
    Delivers (Machine.allocating pinned (Heap.allocate · object)) machine
      (fun id after => ∃ more, legend.Within more ∧ more id = some entity ∧
        Depicts world more ⟨store, items, calls⟩ after) struck := by
  have mapped := depicts.mapped
  refine Machine.delivers_allocating (fun roots => ?_) fun roots id heap ran => ?_
  · obtain ⟨id, after, ran, _⟩ := Heap.allocate_unlimited roots object mapped.unlimited
    exact ⟨id, after, ran⟩
  · obtain ⟨_, _, ran', config⟩ := Heap.allocate_unlimited roots object mapped.unlimited
    cases ran.symm.trans ran'
    obtain ⟨ready, thins, rfl, rfl⟩ := Heap.allocate_ok ran
    have thinned := mapped.thin thins config
    have larger : legend.Within (legend.adding ready.nextId entity) := Legend.within_adding thinned.new
    refine ⟨_, larger, Legend.adding_self, depicts.larger larger ?_⟩
    refine thinned.gained (Heap.gains_link thinned.tidy plain) rfl (grounded larger) (fits larger) opened
      fun other told isTold alike => ?_
    cases here : ready.get? other with
    | none => rfl
    | some _ =>
      have absent := fresh other told isTold alike
      rw [thins.kept here] at absent
      cases absent

end Heaps

section Captures

/-- The cell of a variable on the stack, which is the open one if there is one already. -/
theorem delivers_captureSlot {slot id : Nat} (filed : Filed machine)
    (depicts : Depicts world legend ⟨store, items, calls⟩ machine)
    (here : items[slot]? = some (.cell id true)) :
    Delivers (Machine.captureSlot slot) machine
      (fun object after => ∃ more, legend.Within more ∧ more object = some (.cell id) ∧
        Depicts world more ⟨store, items, calls⟩ after) struck := by
  simp only [Machine.captureSlot, Machine.delivers_bind, Machine.delivers_get]
  split
  · next object found =>
    obtain ⟨before, behind, isList, -⟩ := List.lookup_eq_some_iff.mp found
    have isOpen := filed.listed.mpr (show (slot, object) ∈ machine.openCells by simp [isList])
    obtain ⟨cell, isItem, told⟩ := depicts.mapped.opened isOpen
    cases here.symm.trans isItem
    exact ⟨legend, Legend.Within.refl _, told, depicts⟩
  · next unlisted =>
    simp only [Machine.delivers_bind, Machine.delivers_modify, Machine.delivers_pure]
    refine (depicts.allocates (.cell (.onStack slot)) (.cell id) (by simp)
      (fun _ => depicts.mapped.inside here) (fun _ => .opened here) (fun other same => ?_)
      fun other told isTold alike => ?_).mono ?_ fun _ _ struck => struck
    · cases same
      exact ⟨id, here, rfl⟩
    · cases alike
      cases present : machine.heap.get? other with
      | none => rfl
      | some object =>
        exfalso
        cases depicts.mapped.fits isTold present with
        | opened isItem =>
          cases depicts.mapped.distinct here isItem
          have differs := List.lookup_eq_none_iff.mp unlisted _ (filed.listed.mp present)
          simp at differs
        | closed apart _ _ => exact apart true (List.mem_of_getElem? here)
    · rintro object after ⟨more, larger, told, depicts⟩
      exact ⟨more, larger, told, { depicts with }⟩

/-- A closure gets one of its cells. -/
theorem Mapped.filled (mapped : Mapped world legend registry store items heap) {closure : ObjectId}
    {source : Option Nat} {cell : Option ObjectId} (isMade : legend closure = some (.closure source made))
    (told : ∀ object id, cell = some object → made.cells[index]? = some (some id) →
      legend object = some (.cell id)) :
    Mapped world legend registry store items (heap.setUpvalue closure index cell) := by
  obtain ⟨prototype, upvalues, here, alters⟩ | ⟨-, same⟩ :=
    Heap.alters_setUpvalue mapped.tidy closure index cell
  · have config : (heap.setUpvalue closure index cell).config = heap.config := by
      unfold Heap.setUpvalue
      split <;> rfl
    refine mapped.altered alters config (by simp) (Nat.le_refl _) (Nat.le_refl _) rfl
      (fun entity isTold _ => ?_) (fun _ _ _ _ _ _ fits => fits) (fun _ _ _ _ _ same => same)
      fun same => same
    cases isMade.symm.trans isTold
    cases mapped.fits isMade here with
    | closure _ code captured =>
      refine .closure source code fun {place object id} there isCell => ?_
      rw [Array.getElem?_setIfInBounds] at there
      split at there
      · next same =>
        subst same
        split at there
        · exact told object id (Option.some.inj there) isCell
        · cases there
      · exact captured there isCell
  · rwa [same]

/-- The cell that a capture stands for, by the stack and the captures of the function around. -/
def captured (image : Image) (items : List Item) (base : Nat) (capture : Capture) : Option Nat :=
  if capture.isLocal then items[base + capture.index]?.bind Item.cell? else image.cells[capture.index]?.join

/-- All that a new function captures. -/
theorem delivers_captureAll {closure : ObjectId} {source maker : Option Nat} (captures : List Capture) :
    ∀ {index : Nat} {legend : Legend} {machine : Machine}, Filed machine →
    Depicts world legend ⟨store, items, calls⟩ machine →
    legend frame.closure = some (.closure maker image) → legend closure = some (.closure source made) →
    (∀ place capture, captures[place]? = some capture →
      made.cells[index + place]? = some (captured image items frame.base capture)) →
    (∀ capture ∈ captures, capture.isLocal = true →
      ∃ id, items[frame.base + capture.index]? = some (.cell id true)) →
    Delivers (Machine.captureAll frame closure index captures) machine
      (fun _ after => ∃ more, Depicts world more ⟨store, items, calls⟩ after) struck := by
  induction captures with
  | nil =>
    intro index legend machine _ depicts _ _ _ _
    exact ⟨legend, depicts⟩
  | cons capture rest ih =>
    intro index legend machine filed depicts isMaker isMade cells locals
    have isCell := cells 0 capture rfl
    have fill : ∀ {more : Legend} {after : Machine} {cell : Option ObjectId}, legend.Within more →
        Filed after → Depicts world more ⟨store, items, calls⟩ after →
        (∀ object id, cell = some object → captured image items frame.base capture = some id →
          more object = some (.cell id)) →
        Delivers (do
          Machine.modifyHeap fun heap => heap.setUpvalue closure index cell
          Machine.captureAll frame closure (index + 1) rest) after
          (fun _ after => ∃ more, Depicts world more ⟨store, items, calls⟩ after) struck := by
      intro more after cell larger filed depicts told
      have touches := (inferInstance : Machine.Touching ⟨True, True⟩
        (Machine.modifyHeap fun heap => heap.setUpvalue closure index cell)).leads after
      simp only [Machine.modifyHeap, Machine.delivers_bind, Machine.delivers_modify]
      refine ih (filed.touches touches) (depicts.larger (Legend.Within.refl _)
        (depicts.mapped.filled (larger isMade) fun object id isObject isId => ?_))
        (larger isMaker) (larger isMade) (fun place other here => ?_)
        fun other member => locals other (List.mem_cons_of_mem _ member)
      · exact told object id isObject (Option.some.inj (isCell.symm.trans isId))
      · have isCell := cells (place + 1) other here
        rwa [← Nat.add_assoc, Nat.add_right_comm] at isCell
    simp only [Machine.captureAll]
    split
    · next isLocal =>
      obtain ⟨id, here⟩ := locals capture List.mem_cons_self isLocal
      simp only [Machine.delivers_bind, Machine.delivers_map]
      refine (delivers_filed ⟨True, True⟩ filed (delivers_captureSlot filed depicts here)).mono ?_
        fun _ _ struck => struck
      rintro object after ⟨⟨more, larger, told, depicts⟩, filed⟩
      refine fill larger filed depicts fun other cell same isCell => ?_
      cases same
      rw [captured, if_pos isLocal, here] at isCell
      cases isCell
      exact told
    · next notLocal =>
      simp only [Machine.delivers_bind, Machine.delivers_get]
      split
      · next prototype upvalues present =>
        simp only [Machine.delivers_bind]
        refine Machine.delivers_given fun cell isUpvalue => ?_
        refine fill (Legend.Within.refl _) filed depicts fun object id same isCell => ?_
        subst same
        rw [captured, if_neg notLocal] at isCell
        cases depicts.mapped.fits isMaker present with
        | closure _ _ fits => exact fits isUpvalue (Option.join_eq_some_iff.mp isCell)
      · exact Machine.delivers_goWrong

end Captures

section Functions

variable {body : Prototype} {closure : Closure} {id : ObjectId}

/-- What can be made of a picture without a step of the machine. -/
theorem Shown.regard {picture other : Picture} (shown : Shown world picture machine)
    (same : ∀ {legend : Legend}, Depicts world legend picture machine → Depicts world legend other machine) :
    Shown world other machine :=
  ⟨shown.1.imp fun _ depicts => same depicts, shown.2⟩

/-- What is at work goes on as a variable of its own. -/
theorem Depicts.binds {datum : Datum} {slot : Nat}
    (depicts : Depicts world legend ⟨store, items, calls⟩ machine)
    (here : items[slot]? = some (.value datum)) (captured : Bool) :
    Depicts world legend ⟨{ store with cells := store.cells.push datum },
      items.set slot (.cell store.cells.size captured), calls⟩ machine :=
  { depicts with
    mapped := depicts.mapped.bound here rfl captured datum
    stack := by
      refine rel_set_left (depicts.stack.imp fun item value shown => ?_) slot fun value isValue => ?_
      · refine shown.mono (Legend.Within.refl _) fun id old _ isCell => ?_
        change (store.cells.push datum)[id]? = some old
        rw [Array.getElem?_push_lt (Array.getElem?_eq_some_iff.mp isCell).1]
        exact (Array.getElem?_eq_getElem _).symm.trans isCell
      · rw [Array.getElem?_toList] at isValue
        cases depicts.shows here isValue with
        | value shown => exact .cell captured (by simp) shown }

theorem Depicts.closes (depicts : Depicts world legend ⟨store, items, calls⟩ machine) (closure : Closure) :
    Depicts world legend ⟨{ store with closures := store.closures.push closure }, items, calls⟩ machine :=
  { depicts with
    mapped := depicts.mapped.withStore rfl (fun id other here => by
      change (store.closures.push closure)[id]? = some other
      rw [Array.getElem?_push_lt (Array.getElem?_eq_some_iff.mp here).1]
      exact (Array.getElem?_eq_getElem _).symm.trans here) (fun _ _ same => same) (Nat.le_refl _)
    stack := depicts.stack.imp fun _ _ shown => shown.mono (Legend.Within.refl _) fun _ _ _ same => same }

/-- A closure is allocated, with nothing captured yet. -/
theorem Ready.encloses {cells : List (Option Nat)}
    (ready : Ready world legend store items ⟨image, position, base⟩ calls frame middle)
    (isBody : image.setting.heap.get? id = some (.function body))
    (present : middle.heap.prototype? id = some body)
    (runs : (Image.mk { image.setting with body } cells).Runs closure.name false closure.routine closure.environment) :
    Delivers (Machine.allocating [] (Heap.newClosure · id)) middle
      (fun object after => ∃ more, legend.Within more ∧
        more object = some (.closure (some store.closures.size) ⟨{ image.setting with body }, cells⟩) ∧
        Depicts world more ⟨{ store with closures := store.closures.push closure }, items,
          ⟨image, position, base⟩ :: calls⟩ after) struck := by
  have told := ready.founded.functions isBody
  have founded := ready.founded
  have allocated : Delivers (Machine.allocating []
      (Heap.allocate · (.closure id (Array.replicate body.captures.size none)))) middle
      (fun object after => ∃ more, legend.Within more ∧
        more object = some (.closure (some store.closures.size) ⟨{ image.setting with body }, cells⟩) ∧
        Depicts world more ⟨{ store with closures := store.closures.push closure }, items,
          ⟨image, position, base⟩ :: calls⟩ after) struck := by
    refine (ready.depicts.closes closure).allocates _ _ (by simp) (fun larger => ?_) (fun larger => ?_) (by simp)
      fun other told isTold alike => ?_
    · refine ⟨⟨fun here => larger (founded.strings here), fun here => larger (founded.functions here),
        founded.types⟩, fun source isSource => ?_⟩
      cases isSource
      exact ⟨closure, by simp, runs⟩
    · refine .closure _ (larger told) fun here _ => ?_
      rw [Array.getElem?_replicate] at here
      split at here <;> cases here
    · cases alike with
      | closure _ _ image =>
        obtain ⟨_, here, _⟩ := (ready.depicts.mapped.grounded isTold).2 _ rfl
        exact absurd (Array.getElem?_eq_some_iff.mp here).1 (Nat.lt_irrefl _)
  unfold Delivers Machine.allocating at allocated ⊢
  simp only [Heap.newClosure_eq _ present]
  exact allocated

/-- A function is made. Its own slot may be one of the variables that it captures. -/
theorem Ready.makes {cells : List (Option Nat)} {store' : Store} {item : Item}
    (ready : Ready world legend store items ⟨image, position, base⟩ calls frame middle)
    (constant : image.setting.body.constants[index]? = some (.ref id))
    (isBody : image.setting.heap.get? id = some (.function body))
    (runs : (Image.mk { image.setting with body } cells).Runs closure.name false closure.routine closure.environment)
    (settles : ∀ {legend : Legend} {machine : Machine}, Depicts world legend
      ⟨{ store with closures := store.closures.push closure },
        items ++ [.value (.closure store.closures.size)], ⟨image, position, base⟩ :: calls⟩ machine →
      Depicts world legend ⟨store', items ++ [item], ⟨image, position, base⟩ :: calls⟩ machine)
    (isCells : ∀ (place : Nat) capture, body.captures[place]? = some capture →
      cells[place]? = some (captured image (items ++ [item]) base capture))
    (locals : ∀ capture ∈ body.captures, capture.isLocal = true →
      ∃ id, (items ++ [item])[base + capture.index]? = some (.cell id true)) :
    Delivers (Machine.makeClosure ⟨frame, image.setting.body⟩ index) middle
      (fun _ after => ∃ legend, Depicts world legend
        ⟨store', items ++ [item], ⟨image, position, base⟩ :: calls⟩ after)
      fun fault _ => fault = .stackOverflow := by
  have isConstant : image.setting.body.constant? (index : Int) = some (.ref id) := by
    simpa [Prototype.constant?] using constant
  simp only [Machine.makeClosure, isConstant, Machine.delivers_bind, Machine.delivers_get]
  refine Machine.delivers_given fun other isOther => ?_
  have same : body = other := by
    cases ready.depicts.mapped.fits (ready.founded.functions isBody) (Machine.prototype?_eq_some.mp isOther)
    rfl
  subst same
  refine (delivers_filed .none ready.filed (ready.encloses isBody isOther runs)).mono ?_ fun _ _ struck => struck
  rintro object after ⟨⟨more, larger, isMade, depicts⟩, filed⟩
  have pushed : Delivers (Machine.push (.ref object)) after
      (fun _ last => Depicts world more ⟨store', items ++ [item], ⟨image, position, base⟩ :: calls⟩ last)
      fun fault _ => fault = .stackOverflow :=
    Machine.delivers_push rfl (settles (depicts.push rfl (.value (.closure isMade))))
  refine (delivers_filed .none filed pushed).mono ?_ fun _ _ struck => struck
  rintro - last ⟨depicts, filed⟩
  obtain ⟨source, isMaker⟩ := ready.maker
  refine delivers_captureAll _ filed depicts (larger isMaker) isMade (fun place capture here => ?_) fun capture member isLocal => ?_
  · rw [Nat.zero_add, ready.base]
    exact isCells place capture (by rwa [Array.getElem?_toList] at here)
  · rw [ready.base]
    exact locals capture (Array.mem_toList_iff.mp member) isLocal

end Functions

end ScriptMachine.Source
