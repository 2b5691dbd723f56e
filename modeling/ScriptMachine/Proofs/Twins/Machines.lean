import ScriptMachine.Proofs.Machine.Moves
import ScriptMachine.Proofs.Twins.Views

set_option autoImplicit false

/- Two machines at the same point of one program. They differ in what they have collected and swept
and in what they count, so an action of one is compared with the same action of the other: both end
alike, unless one of them runs out of heap or of stack. -/
namespace ScriptMachine

/-- Methods that answer for the same trait. -/
structure Method.Twin (pairs : Pairing) (left right : Method) : Prop where
  trait : right.trait = left.trait
  closure : pairs left.closure right.closure

structure StructType.Twin (pairs : Pairing) (left right : StructType) : Prop where
  name : right.name = left.name
  fields : right.fields = left.fields
  traits : right.traits = left.traits
  methods : List.Forall₂ (fun entry entry' => entry'.1 = entry.1 ∧
    Method.Twin pairs entry.2 entry'.2) left.methods right.methods

structure Registry.Twin (pairs : Pairing) (left right : Registry) : Prop where
  structs : Across (StructType.Twin pairs) left.structs right.structs
  traits : right.traits = left.traits

section Registries

variable {pairs more : Pairing} {left right : Registry} {type type' : StructType}

theorem StructType.Twin.mono (larger : pairs ≤ more) (twin : type.Twin pairs type') :
    type.Twin more type' :=
  ⟨twin.name, twin.fields, twin.traits, twin.methods.imp fun _ _ same =>
    ⟨same.1, same.2.trait, larger _ _ same.2.closure⟩⟩

theorem StructType.Twin.swap (twin : type.Twin pairs type') : type'.Twin pairs.swapped type :=
  ⟨twin.name.symm, twin.fields.symm, twin.traits.symm, twin.methods.flip.imp fun _ _ same =>
    ⟨same.1.symm, same.2.trait.symm, same.2.closure⟩⟩

theorem StructType.Twin.findMethod (twin : type.Twin pairs type') (name : Text) :
    Option.Rel (Method.Twin pairs) (type.findMethod name) (type'.findMethod name) := by
  unfold StructType.findMethod
  have methods := twin.methods
  generalize type.methods = entries at methods
  generalize type'.methods = entries' at methods
  induction methods with
  | nil => exact .none
  | @cons entry entry' _ _ same _ ih =>
    obtain ⟨key, method⟩ := entry
    obtain ⟨key', method'⟩ := entry'
    obtain ⟨rfl, alike⟩ := same
    simp only [List.lookup_cons]
    split
    · exact .some alike
    · exact ih

theorem Registry.Twin.mono (larger : pairs ≤ more) (twin : left.Twin pairs right) :
    left.Twin more right :=
  ⟨twin.structs.mono fun _ _ => StructType.Twin.mono larger, twin.traits⟩

theorem Registry.Twin.swap (twin : left.Twin pairs right) : right.Twin pairs.swapped left :=
  ⟨twin.structs.swap.mono fun _ _ => StructType.Twin.swap, twin.traits.symm⟩

/-- Either side registers a struct under an identifier, or none does. -/
theorem Registry.Twin.struct? (twin : left.Twin pairs right) (id : StructId) :
    Option.Rel (StructType.Twin pairs) (left.struct? id) (right.struct? id) := by
  unfold Registry.struct?
  cases here : left.structs[id]? with
  | none =>
    rw [twin.structs.at_none here]
    exact .none
  | some type =>
    obtain ⟨type', there, same⟩ := twin.structs.at here
    rw [there]
    exact .some same

end Registries

/-- Tables that hold twins under paired keys. -/
structure Tabled {α : Type} (pairs : Pairing) (relation : α → α → Prop)
    (left right : Std.TreeMap ObjectId α) : Prop where
  forth : ∀ {key : ObjectId} {value : α}, left[key]? = some value →
    ∃ key' value', pairs key key' ∧ right[key']? = some value' ∧ relation value value'
  back : ∀ {key' : ObjectId} {value' : α}, right[key']? = some value' →
    ∃ key value, pairs key key' ∧ left[key]? = some value ∧ relation value value'

section Tables

variable {α : Type} {pairs more : Pairing} {relation other : α → α → Prop}
  {left right : Std.TreeMap ObjectId α}

theorem Tabled.mono (larger : pairs ≤ more) (weaker : ∀ a b, relation a b → other a b)
    (tabled : Tabled pairs relation left right) : Tabled more other left right where
  forth here := by
    obtain ⟨key, value, paired, there, same⟩ := tabled.forth here
    exact ⟨key, value, larger _ _ paired, there, weaker _ _ same⟩
  back there := by
    obtain ⟨key, value, paired, here, same⟩ := tabled.back there
    exact ⟨key, value, larger _ _ paired, here, weaker _ _ same⟩

theorem Tabled.swap (tabled : Tabled pairs relation left right) :
    Tabled pairs.swapped (fun b a => relation a b) right left where
  forth := tabled.back
  back := tabled.forth

theorem Tabled.empty : Tabled pairs relation {} {} where
  forth here := by simp at here
  back there := by simp at there

/-- Twins that are filed under live keys are found under their twins. -/
theorem Tabled.at {heap heap' : Heap} (tabled : Tabled pairs relation left right)
    (twin : Heap.Twin pairs heap heap') {key key' : ObjectId} (paired : pairs key key')
    (here : (heap.get? key).isSome) (there : (heap'.get? key').isSome)
    (keys : ∀ {key value}, left[key]? = some value → (heap.get? key).isSome)
    (keys' : ∀ {key value}, right[key]? = some value → (heap'.get? key).isSome) :
    Option.Rel relation left[key]? right[key']? := by
  cases found : left[key]? with
  | some value =>
    obtain ⟨other, value', joined, found', same⟩ := tabled.forth found
    obtain rfl := twin.unique paired joined here there (keys' found')
    rw [found']
    exact .some same
  | none =>
    cases found' : right[key']? with
    | none => exact .none
    | some value' =>
      obtain ⟨other, value, joined, found'', _⟩ := tabled.back found'
      obtain rfl := twin.swap.unique paired joined there here (keys found'')
      rw [found] at found''
      cases found''

/-- Twins are filed under live keys. -/
theorem Tabled.insert {heap heap' : Heap} (tabled : Tabled pairs relation left right)
    (twin : Heap.Twin pairs heap heap') {key key' : ObjectId} (paired : pairs key key')
    (here : (heap.get? key).isSome) (there : (heap'.get? key').isSome)
    (keys : ∀ {key value}, left[key]? = some value → (heap.get? key).isSome)
    (keys' : ∀ {key value}, right[key]? = some value → (heap'.get? key).isSome)
    {value value' : α} (same : relation value value') :
    Tabled pairs relation (left.insert key value) (right.insert key' value') where
  forth {other found} isFound := by
    rw [Std.TreeMap.getElem?_insert] at isFound
    split at isFound
    · next equal =>
      obtain rfl := Std.LawfulEqCmp.eq_of_compare equal
      cases isFound
      exact ⟨key', value', paired, by simp, same⟩
    · next apart =>
      obtain ⟨other', found', joined, isFound', alike⟩ := tabled.forth isFound
      refine ⟨other', found', joined, ?_, alike⟩
      rw [Std.TreeMap.getElem?_insert, if_neg, isFound']
      intro equal
      obtain rfl := Std.LawfulEqCmp.eq_of_compare equal
      obtain rfl := twin.swap.unique paired joined there here (keys isFound)
      exact apart Std.ReflCmp.compare_self
  back {other found} isFound := by
    rw [Std.TreeMap.getElem?_insert] at isFound
    split at isFound
    · next equal =>
      obtain rfl := Std.LawfulEqCmp.eq_of_compare equal
      cases isFound
      exact ⟨key, value, paired, by simp, same⟩
    · next apart =>
      obtain ⟨other', found', joined, isFound', alike⟩ := tabled.back isFound
      refine ⟨other', found', joined, ?_, alike⟩
      rw [Std.TreeMap.getElem?_insert, if_neg, isFound']
      intro equal
      obtain rfl := Std.LawfulEqCmp.eq_of_compare equal
      obtain rfl := twin.unique paired joined here there (keys' isFound)
      exact apart Std.ReflCmp.compare_self

end Tables

namespace Machine

/-- Frames of the same call at the same place. -/
structure TwinFrame (pairs : Pairing) (left right : Frame) : Prop where
  closure : pairs left.closure right.closure
  base : right.base = left.base
  ip : right.ip = left.ip

/-- Node identifiers are used once, and those from `next` on are fresh. -/
structure Numbered (frames : List Frame) (next : NodeId) : Prop where
  unique : StackStruct.Unique (nodeIds frames)
  below : ∀ id ∈ nodeIds frames, id < next

/-- No open cell is a string. -/
def CellsApart (heap : Heap) (cells : List (Nat × ObjectId)) : Prop :=
  ∀ entry ∈ cells, ∀ text, heap.get? entry.2 ≠ some (.string text)

/-- Machines that agree in all that a script can see. -/
structure Twin (pairs : Pairing) (left right : Machine) : Prop where
  heap : Heap.Twin pairs left.heap right.heap
  registry : left.registry.Twin pairs right.registry
  output : right.output = left.output
  stack : Across (Value.Twin pairs) left.stack right.stack
  frames : List.Forall₂ (TwinFrame pairs) left.frames right.frames
  cells : List.Forall₂ (fun entry entry' => entry'.1 = entry.1 ∧ pairs entry.2 entry'.2)
    left.openCells right.openCells
  globals : Tabled pairs (Value.Twin pairs) left.globals right.globals
  natives : Tabled pairs pairs left.natives right.natives
  nextNode : right.nextNode = left.nextNode
  nodes : ∀ {node : NodeId} {struct struct' : StackStruct}, left.node? node = some struct →
    right.node? node = some struct' → struct.Twin pairs struct'
  numbered : Numbered left.frames left.nextNode
  numbered' : Numbered right.frames right.nextNode
  opened : CellsApart left.heap left.openCells
  opened' : CellsApart right.heap right.openCells

/-- A machine that has lost objects and structs and has changed nothing else that can be seen. -/
structure Thins (before after : Machine) : Prop where
  heap : before.heap.Thins after.heap
  calls : List.Forall₂ SameCall before.frames after.frames
  nodes : ∀ {node : NodeId} {found : StackStruct}, after.node? node = some found →
    ∃ old, before.node? node = some old ∧
      ∀ {pairs : Pairing} {other : StackStruct}, old.Twin pairs other → found.Twin pairs other
  ids : ∀ id, (nodeIds after.frames).count id ≤ (nodeIds before.frames).count id
  rest : after = { before with
    heap := after.heap, frames := after.frames, arenaBytes := after.arenaBytes }

section Relations

variable {pairs more : Pairing} {left right left' right' before after : Machine}

theorem TwinFrame.mono {frame frame' : Frame} (larger : pairs ≤ more)
    (twin : TwinFrame pairs frame frame') : TwinFrame more frame frame' :=
  ⟨larger _ _ twin.closure, twin.base, twin.ip⟩

theorem Twin.swap (twin : Twin pairs left right) : Twin pairs.swapped right left where
  heap := twin.heap.swap
  registry := twin.registry.swap
  output := twin.output.symm
  stack := twin.stack.swap.mono fun _ _ => Value.Twin.swap
  frames := twin.frames.flip.imp fun _ _ same => ⟨same.closure, same.base.symm, same.ip.symm⟩
  cells := twin.cells.flip.imp fun _ _ same => ⟨same.1.symm, same.2⟩
  globals := twin.globals.swap.mono le_rfl fun _ _ => Value.Twin.swap
  natives := twin.natives.swap
  nextNode := twin.nextNode.symm
  nodes here there := (twin.nodes there here).swap
  numbered := twin.numbered'
  numbered' := twin.numbered
  opened := twin.opened'
  opened' := twin.opened

theorem Thins.refl (machine : Machine) : Thins machine machine where
  heap := .refl _
  calls := sameCalls_refl _
  nodes here := ⟨_, here, fun same => same⟩
  ids _ := Nat.le_refl _
  rest := rfl

theorem Thins.trans {first second third : Machine} (one : Thins first second)
    (two : Thins second third) : Thins first third where
  heap := one.heap.trans two.heap
  calls := sameCalls_trans one.calls two.calls
  nodes here := by
    obtain ⟨middle, found, alike⟩ := two.nodes here
    obtain ⟨old, isOld, alike'⟩ := one.nodes found
    exact ⟨old, isOld, fun same => alike (alike' same)⟩
  ids id := Nat.le_trans (two.ids id) (one.ids id)
  rest := by
    rw [two.rest, one.rest]

theorem Thins.numbered (thins : Thins before after)
    (numbered : Numbered before.frames before.nextNode) : Numbered after.frames after.nextNode where
  unique := numbered.unique.of_le thins.ids
  below id member := by
    rw [thins.rest]
    exact numbered.below id (StackStruct.mem_of_count_le (thins.ids id) member)

theorem Thins.opened (thins : Thins before after) (opened : CellsApart before.heap before.openCells) :
    CellsApart after.heap after.openCells := by
  intro entry member text present
  rw [thins.rest] at member
  exact opened entry member text (thins.heap.kept present)

theorem Thins.twinFrames {frames frames' frames'' : List Frame}
    (calls : List.Forall₂ SameCall frames frames'')
    (twins : List.Forall₂ (TwinFrame pairs) frames frames') :
    List.Forall₂ (TwinFrame pairs) frames'' frames' := by
  induction twins generalizing frames'' with
  | nil => cases calls; exact .nil
  | cons twin _ ih =>
    cases calls with
    | cons same rest =>
      refine .cons ⟨?_, ?_, ?_⟩ (ih rest)
      · rw [same.1]; exact twin.closure
      · rw [same.2.1]; exact twin.base
      · rw [same.2.2]; exact twin.ip

theorem Twin.thin_left (twin : Twin pairs left right) (thins : Thins left left') :
    Twin pairs left' right := by
  have rest := thins.rest
  have frames := Thins.twinFrames thins.calls twin.frames
  constructor
  · exact twin.heap.thin thins.heap (.refl _)
  · rw [rest]; exact twin.registry
  · rw [rest]; exact twin.output
  · rw [rest]; exact twin.stack
  · exact frames
  · rw [rest]; exact twin.cells
  · rw [rest]; exact twin.globals
  · rw [rest]; exact twin.natives
  · rw [rest]; exact twin.nextNode
  · intro node struct struct' here there
    obtain ⟨old, isOld, alike⟩ := thins.nodes here
    exact alike (twin.nodes isOld there)
  · exact thins.numbered twin.numbered
  · exact twin.numbered'
  · exact thins.opened twin.opened
  · exact twin.opened'

/-- Twins stay twins whatever either of them collects and sweeps. -/
theorem Twin.thin (twin : Twin pairs left right) (thins : Thins left left')
    (thins' : Thins right right') : Twin pairs left' right' :=
  ((twin.thin_left thins).swap.thin_left thins').swap

/-- Twins that have gone on. What was paired stays paired, and nothing has been printed. -/
structure Goes (pairs : Pairing) (left right : Machine) (more : Pairing) (left' right' : Machine) :
    Prop where
  larger : pairs ≤ more
  twin : Twin more left' right'
  older : left.heap.Older left'.heap
  older' : right.heap.Older right'.heap
  said : left'.output = left.output

theorem Twin.goes (twin : Twin pairs left right) : Goes pairs left right pairs left right :=
  ⟨le_rfl, twin, .refl _, .refl _, rfl⟩

theorem Goes.trans {most : Pairing} {left'' right'' : Machine}
    (one : Goes pairs left right more left' right')
    (two : Goes more left' right' most left'' right'') :
    Goes pairs left right most left'' right'' :=
  ⟨one.larger.trans two.larger, two.twin, one.older.trans two.older, one.older'.trans two.older',
    two.said.trans one.said⟩

theorem Twin.thinned (twin : Twin pairs left right) (thins : Thins left left')
    (thins' : Thins right right') : Goes pairs left right pairs left' right' :=
  ⟨le_rfl, twin.thin thins thins', thins.heap.older, thins'.heap.older, by rw [thins.rest]⟩

theorem CellsApart.older {heap heap' : Heap} {cells : List (Nat × ObjectId)}
    (opened : CellsApart heap cells) (older : heap.Older heap')
    (below : ∀ entry ∈ cells, entry.2 < heap.nextId) : CellsApart heap' cells :=
  fun entry member => older.plain (below entry member) (opened entry member)

theorem forall₂_of_mem {α β : Type} {relation : α → β → Prop} {ours : List α} {others : List β}
    (related : List.Forall₂ relation ours others) : ∀ one ∈ ours, ∃ other, relation one other := by
  induction related with
  | nil => simp
  | cons first _ ih => exact List.forall_mem_cons.mpr ⟨⟨_, first⟩, ih⟩

theorem Twin.cells_below (twin : Twin pairs left right) :
    ∀ entry ∈ left.openCells, entry.2 < left.heap.nextId := by
  intro entry member
  obtain ⟨other, same⟩ := forall₂_of_mem twin.cells entry member
  exact (twin.heap.bounded same.2).1

/-- The heaps go on, and the pairing with them. -/
theorem Twin.withHeap {heap heap' : Heap} (twin : Twin pairs left right)
    (goes : Heap.Goes pairs left.heap right.heap more heap heap') :
    Goes pairs left right more { left with heap } { right with heap := heap' } where
  larger := goes.larger
  twin :=
    { heap := goes.twin
      registry := twin.registry.mono goes.larger
      output := twin.output
      stack := twin.stack.mono fun _ _ => Value.Twin.mono goes.larger
      frames := twin.frames.imp fun _ _ => TwinFrame.mono goes.larger
      cells := twin.cells.imp fun _ _ same => ⟨same.1, goes.larger _ _ same.2⟩
      globals := twin.globals.mono goes.larger fun _ _ => Value.Twin.mono goes.larger
      natives := twin.natives.mono goes.larger fun a b => goes.larger a b
      nextNode := twin.nextNode
      nodes := fun here there => (twin.nodes here there).mono goes.larger
      numbered := twin.numbered
      numbered' := twin.numbered'
      opened := twin.opened.older goes.older twin.cells_below
      opened' := twin.opened'.older goes.older' twin.swap.cells_below }
  older := goes.older
  older' := goes.older'
  said := rfl

end Relations

end Machine

end ScriptMachine
