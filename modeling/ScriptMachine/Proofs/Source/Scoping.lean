import ScriptMachine.Proofs.Source.Enclosing

set_option autoImplicit false

/- Where the variables of an environment are: in slots of the innermost call, or among the cells that its
function has captured. -/
namespace ScriptMachine.Source

open Prototype (Setting)

variable {world : World} {store : Store} {items lower mine : List Item} {image : Image}
  {position bound : Nat} {calls : List Call} {machine : Machine} {name : Text} {outer environment : Environment}
  {locals : Locals} {context : Context} {place : Place}

/-- The slots of a call and the environment that they make up, oldest first. Below the variables there may be
the function that is called. -/
inductive Binds (outer : Environment) : Locals → Environment → List Item → Prop where
  | nothing : Binds outer [] outer []
  | callee {locals : Locals} {environment : Environment} {mine : List Item}
      (binds : Binds outer locals environment mine) (flag : Bool) :
      Binds outer (([], flag) :: locals) environment (mine ++ [.callee])
  | cell {locals : Locals} {environment : Environment} {mine : List Item}
      (binds : Binds outer locals environment mine) (name : Text) (flag : Bool) (id : Nat) :
      Binds outer ((name, flag) :: locals) ((name, id) :: environment) (mine ++ [.cell id flag])

namespace Binds

theorem length (binds : Binds outer locals environment mine) : mine.length = locals.length := by
  induction binds with
  | nothing => rfl
  | callee _ _ ih | cell _ _ _ _ ih => rw [List.length_append, ih]; rfl

/-- The slot of a local is that of the variable which the environment tells. -/
theorem slot (binds : Binds outer locals environment mine) (named : name ≠ []) {slot : Nat}
    (isSlot : slotOf locals name = some slot) :
    ∃ id flag, mine[slot]? = some (.cell id flag) ∧ environment.lookup name = some id := by
  have low : ∀ {items : List Item} {item last : Item}, items[slot]? = some item →
      (items ++ [last])[slot]? = some item := fun here => by
    rw [List.getElem?_append_left (List.getElem?_eq_some_iff.mp here).1]
    exact here
  induction binds with
  | nothing => cases isSlot
  | @callee locals environment mine _ flag ih =>
    rw [slotOf, if_neg (by simpa using named)] at isSlot
    obtain ⟨id, flag, here, found⟩ := ih isSlot
    exact ⟨id, flag, low here, found⟩
  | @cell locals environment mine binds other flag id ih =>
    rw [slotOf] at isSlot
    split at isSlot
    · next same =>
      cases isSlot
      rw [beq_iff_eq] at same
      refine ⟨id, flag, ?_, ?_⟩
      · rw [← binds.length]
        exact List.getElem?_concat_length ..
      · simp only at same
        rw [List.lookup_cons, same, beq_self_eq_true]
    · next differs =>
      obtain ⟨id', flag', here, found⟩ := ih isSlot
      refine ⟨id', flag', low here, ?_⟩
      have apart : (name == other) = false := by
        rw [beq_eq_false_iff_ne]
        rintro rfl
        simp at differs
      rw [List.lookup_cons, apart]
      exact found

/-- A name that no local has stands for what it stands for outside. -/
theorem unknown (binds : Binds outer locals environment mine) (named : name ≠ [])
    (noSlot : slotOf locals name = none) : environment.lookup name = outer.lookup name := by
  induction binds with
  | nothing => rfl
  | callee _ _ ih =>
    rw [slotOf, if_neg (by simpa using named)] at noSlot
    exact ih noSlot
  | @cell _ _ _ _ other _ _ ih =>
    rw [slotOf] at noSlot
    split at noSlot
    · cases noSlot
    · next differs =>
      have apart : (name == other) = false := by
        rw [beq_eq_false_iff_ne]
        rintro rfl
        simp at differs
      rw [List.lookup_cons, apart]
      exact ih noSlot

/-- A variable that a closure captures is marked. -/
theorem marked (binds : Binds outer locals environment mine) (named : name ≠ []) {index : Nat}
    (isLocal : locals.reverse[index]? = some (name, true)) :
    ∃ id, mine[index]? = some (.cell id true) := by
  induction binds with
  | nothing => simp at isLocal
  | @callee locals _ mine binds flag ih =>
    rw [List.reverse_cons, List.getElem?_append] at isLocal
    split at isLocal
    · next inside =>
      obtain ⟨id, here⟩ := ih isLocal
      exact ⟨id, by rw [List.getElem?_append_left (List.getElem?_eq_some_iff.mp here).1]; exact here⟩
    · have same := List.mem_singleton.mp (List.mem_of_getElem? isLocal)
      cases same
      exact absurd rfl named
  | @cell locals _ mine binds other flag id ih =>
    rw [List.reverse_cons, List.getElem?_append] at isLocal
    split at isLocal
    · next inside =>
      obtain ⟨id, here⟩ := ih isLocal
      exact ⟨id, by rw [List.getElem?_append_left (List.getElem?_eq_some_iff.mp here).1]; exact here⟩
    · next outside =>
      have inside := (List.getElem?_eq_some_iff.mp isLocal).1
      simp only [List.length_reverse, List.length_singleton] at inside outside
      have last : index = mine.length := by rw [binds.length]; omega
      cases List.mem_singleton.mp (List.mem_of_getElem? isLocal)
      exact ⟨id, by rw [last]; exact List.getElem?_concat_length ..⟩

/-- Further locals are bound behind those that there are already. -/
theorem extend {declared : Locals} {inner : Environment} {added : List Item}
    (binds : Binds outer locals environment mine) (more : Binds environment declared inner added) :
    Binds outer (declared ++ locals) inner (mine ++ added) := by
  induction more with
  | nothing => simpa using binds
  | callee _ flag ih =>
    rw [← List.append_assoc]
    exact .callee ih flag
  | cell _ name flag id ih =>
    rw [← List.append_assoc]
    exact .cell ih name flag id

end Binds

/-- The locals of a block are dropped at its end. -/
theorem Shown.leaves {declared : Locals} {inner : Environment} {added : List Item}
    (binds : Binds environment declared inner added) {base : Nat}
    (shown : Shown world ⟨store, items ++ added, ⟨image, position, base⟩ :: calls⟩ machine)
    (holds : image.Holds position (Prototype.leave (declared.map Prod.snd))) :
    Arrives machine (Shown world ⟨store, items, ⟨image, position + declared.length, base⟩ :: calls⟩) := by
  induction binds generalizing position machine with
  | nothing => exact .refl (by simpa using shown)
  | callee _ flag ih =>
    rw [← List.append_assoc] at shown
    refine (shown.drops holds.1 (by simp)).bind fun last shown => ?_
    have arrives := ih shown holds.2
    rwa [Nat.add_assoc, Nat.add_comm 1] at arrives
  | cell _ name flag id ih =>
    rw [← List.append_assoc] at shown
    refine (shown.drops holds.1 (by rintro rfl; simp)).bind fun last shown => ?_
    have arrives := ih shown holds.2
    rwa [Nat.add_assoc, Nat.add_comm 1] at arrives

/-- Where code stands: what it was compiled with is what the image has, and the slots of the call together
with the captures make up the environment. -/
structure Stance (context : Context) (image : Image) (mine : List Item) (environment : Environment) :
    Prop where
  setting : context.toSetting = image.setting
  binds : ∃ outer, Binds outer context.locals environment mine ∧
    Encloses context.around context.body.captures image.cells outer

section Resolving

theorem getElem?_within {below : List Item} {item : Item} {slot : Nat} (within : lower ++ below <+: items)
    (here : below[slot]? = some item) : items[lower.length + slot]? = some item := by
  obtain ⟨above, rfl⟩ := within
  have inside : slot < below.length := (List.getElem?_eq_some_iff.mp here).1
  rw [List.append_assoc, List.getElem?_append_right (Nat.le_add_right _ _), Nat.add_sub_cancel_left,
    List.getElem?_append_left inside]
  exact here

theorem Stance.file (stance : Stance context image mine environment) {index : Nat} {text : Text}
    (files : context.Files index text) : ∃ id, image.setting.body.constants[index]? = some (.ref id) ∧
      image.setting.heap.string? id = some text := by
  rw [← stance.setting]
  exact files

/-- A name is read from where it stands for something. -/
theorem Shown.reads (stance : Stance context image mine environment) (within : lower ++ mine <+: items)
    (shown : Shown world ⟨store, items, ⟨image, position, lower.length⟩ :: calls⟩ machine)
    (resolves : context.Resolves name place)
    (here : image.setting.body.code[position]? = some place.read) :
    Tracks bound (fun datum store => Shown world
      ⟨store, items ++ [.value datum], ⟨image, position + 1, lower.length⟩ :: calls⟩) machine
      (readVariable world environment name store) := by
  obtain ⟨outer, binds, encloses⟩ := stance.binds
  obtain ⟨named, resolves⟩ := resolves
  cases place with
  | slot slot =>
    obtain ⟨id, flag, isItem, found⟩ := binds.slot named resolves
    simp only [readVariable, found]
    exact shown.reads_local here (getElem?_within within isItem)
  | upvalue index =>
    obtain ⟨cell, isCell, found⟩ := encloses.leads named resolves.2
    rw [← binds.unknown named resolves.1] at found
    simp only [readVariable, found]
    exact shown.reads_upvalue here isCell
  | global index =>
    have found := encloses.unknown named resolves.2.1
    rw [← binds.unknown named resolves.1] at found
    obtain ⟨id, constant, string⟩ := stance.file resolves.2.2
    simp only [readVariable, found]
    exact shown.reads_global here constant string

/-- A name is assigned to where it stands for something. -/
theorem Shown.writes {datum : Datum} (stance : Stance context image mine environment)
    (within : lower ++ mine <+: items)
    (shown : Shown world ⟨store, items ++ [.value datum], ⟨image, position, lower.length⟩ :: calls⟩ machine)
    (resolves : context.Resolves name place)
    (here : image.setting.body.code[position]? = some place.write) :
    Tracks bound (fun _ store => Shown world
      ⟨store, items ++ [.value datum], ⟨image, position + 1, lower.length⟩ :: calls⟩) machine
      (writeVariable environment name datum store) := by
  obtain ⟨outer, binds, encloses⟩ := stance.binds
  obtain ⟨named, resolves⟩ := resolves
  cases place with
  | slot slot =>
    obtain ⟨id, flag, isItem, found⟩ := binds.slot named resolves
    simp only [writeVariable, found]
    exact shown.writes_local here (getElem?_within within isItem)
  | upvalue index =>
    obtain ⟨cell, isCell, found⟩ := encloses.leads named resolves.2
    rw [← binds.unknown named resolves.1] at found
    simp only [writeVariable, found]
    exact shown.writes_upvalue here isCell
  | global index =>
    have found := encloses.unknown named resolves.2.1
    rw [← binds.unknown named resolves.1] at found
    obtain ⟨id, constant, string⟩ := stance.file resolves.2.2
    simp only [writeVariable, found]
    exact shown.writes_global here constant string

end Resolving

section Making

/-- The environment of a function that is made here is the present one. -/
theorem Stance.encloses (stance : Stance context image mine environment) (within : lower ++ mine <+: items)
    (captures : Array Capture) :
    Encloses (⟨context.locals, context.body.captures⟩ :: context.around) captures
      (captures.toList.map (captured image items lower.length)) environment := by
  obtain ⟨outer, binds, encloses⟩ := stance.binds
  refine ⟨fun {name index} named leads => ?_, fun {name} named unknown => ?_⟩
  · rw [Leads] at leads
    split at leads
    · next slot isSlot =>
      obtain ⟨id, flag, isItem, found⟩ := binds.slot named isSlot
      refine ⟨id, ?_, found⟩
      simp only [List.getElem?_map, Array.getElem?_toList, leads.1, Option.map_some, captured, if_true,
        getElem?_within within isItem, Option.bind_some, Item.cell?]
    · next noSlot =>
      obtain ⟨between, isCapture, leads⟩ := leads
      obtain ⟨cell, isCell, found⟩ := encloses.leads named leads
      refine ⟨cell, ?_, (binds.unknown named noSlot).trans found⟩
      simp only [List.getElem?_map, Array.getElem?_toList, isCapture, Option.map_some, captured,
        Bool.false_eq_true, if_false, isCell, Option.join_some]
  · rw [binds.unknown named (unknown _ List.mem_cons_self)]
    exact encloses.unknown named fun scope member => unknown scope (List.mem_cons_of_mem _ member)

theorem Stance.declare {declared : Locals} {inner : Environment} {added : List Item}
    (stance : Stance context image mine environment) (binds : Binds environment declared inner added) :
    Stance (context.declare declared) image (mine ++ added) inner := by
  obtain ⟨outer, bound, encloses⟩ := stance.binds
  exact ⟨stance.setting, outer, bound.extend binds, encloses⟩

/-- What a function that is made here needs to know. -/
theorem Stance.runs {routine : Routine} {body : Prototype} (stance : Stance context image mine environment)
    (within : lower ++ mine <+: items) (codes : routine.Codes name false context body) :
    (Image.mk { image.setting with body }
      (body.captures.toList.map (captured image items lower.length))).Runs name false routine environment := by
  have heap : context.heap = image.setting.heap := congrArg Setting.heap stance.setting
  have registry : context.registry = image.setting.registry := congrArg Setting.registry stance.setting
  exact ⟨context, heap, registry, codes, stance.encloses within body.captures⟩

/-- What a function captures of the one around it is marked there. -/
theorem Stance.marked {body : Prototype} (stance : Stance context image mine environment)
    (within : lower ++ mine <+: items)
    (locals : ∀ capture ∈ body.captures, capture.isLocal = true →
      ∃ name, name ≠ [] ∧ context.locals.reverse[capture.index]? = some (name, true)) :
    ∀ capture ∈ body.captures, capture.isLocal = true →
      ∃ id, items[lower.length + capture.index]? = some (.cell id true) := by
  intro capture member isLocal
  obtain ⟨outer, binds, _⟩ := stance.binds
  obtain ⟨name, named, here⟩ := locals capture member isLocal
  obtain ⟨id, isItem⟩ := binds.marked named here
  exact ⟨id, getElem?_within within isItem⟩

/-- A function is made, as a value or in the slot of the local that it is the value of. -/
theorem Shown.makes {routine : Routine} {store' : Store} {item : Item} {code : List Instruction}
    (stance : Stance context image mine environment) (within : lower ++ mine <+: items ++ [item])
    (shown : Shown world ⟨store, items, ⟨image, position, lower.length⟩ :: calls⟩ machine)
    (closes : closes (routine.Codes name false) context position code) (holds : image.Holds position code)
    (settles : ∀ {legend : Legend} {machine : Machine} {calls : List Call}, Depicts world legend
      ⟨{ store with closures := store.closures.push ⟨name, routine, environment⟩ },
        items ++ [.value (.closure store.closures.size)], calls⟩ machine →
      Depicts world legend ⟨store', items ++ [item], calls⟩ machine) :
    Arrives machine (Shown world
      ⟨store', items ++ [item], ⟨image, position + code.length, lower.length⟩ :: calls⟩) := by
  obtain ⟨index, id, body, constant, isBody, codes, locals, rfl⟩ := closes
  have sameBody : context.body = image.setting.body := congrArg Setting.body stance.setting
  have sameHeap : context.heap = image.setting.heap := congrArg Setting.heap stance.setting
  rw [sameBody] at constant
  rw [sameHeap] at isBody
  refine shown.goes holds.1 fun ready => ?_
  simp only [Machine.execute, Machine.delivers_bind]
  refine (ready.makes constant isBody (stance.runs within codes : Image.Runs _ (Closure.mk name routine environment).name _ _ _)
    settles (fun place capture here => ?_) (stance.marked within locals)).mono
    (fun _ _ depicts => ⟨rfl, depicts⟩) fun _ _ struck => struck
  rw [List.getElem?_map, Array.getElem?_toList, here, Option.map_some]

end Making

end ScriptMachine.Source
