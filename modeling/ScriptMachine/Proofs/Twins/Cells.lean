import ScriptMachine.Proofs.Machine.Cells
import ScriptMachine.Proofs.Twins.Copies

set_option autoImplicit false

/- Captured variables on both sides: the open cells stand for the same slots, in the same order. -/
namespace ScriptMachine.Machine

variable {said : Array UInt8} {pairs more : Pairing} {left right : Machine} {value value' : Value}

/-- Cells that stand for the same slot on both sides, listed alike. -/
abbrev TwinCells (pairs : Pairing) : List (Nat × ObjectId) → List (Nat × ObjectId) → Prop :=
  List.Forall₂ fun entry entry' => entry'.1 = entry.1 ∧ pairs entry.2 entry'.2

section Lists

variable {cells cells' : List (Nat × ObjectId)} {a b : ObjectId}

theorem TwinCells.lookup (twins : TwinCells pairs cells cells') (slot : Nat) :
    Option.Rel pairs (cells.lookup slot) (cells'.lookup slot) := by
  induction twins with
  | nil => exact .none
  | @cons entry entry' _ _ first _ ih =>
    obtain ⟨index, cell⟩ := entry
    obtain ⟨index', cell'⟩ := entry'
    obtain ⟨same, paired⟩ := first
    dsimp only at same paired
    subst same
    rw [List.lookup_cons, List.lookup_cons]
    split
    · exact .some paired
    · exact ih

theorem TwinCells.insert (twins : TwinCells pairs cells cells') (slot : Nat) (paired : pairs a b) :
    TwinCells pairs (insertCell slot a cells) (insertCell slot b cells') := by
  induction twins with
  | nil => exact .cons ⟨rfl, paired⟩ .nil
  | @cons entry entry' _ _ first rest ih =>
    obtain ⟨index, cell⟩ := entry
    obtain ⟨index', cell'⟩ := entry'
    obtain ⟨same, joined⟩ := first
    dsimp only at same joined
    subst same
    simp only [insertCell]
    split
    · exact .cons ⟨rfl, joined⟩ ih
    · exact .cons ⟨rfl, paired⟩ (.cons ⟨rfl, joined⟩ rest)

theorem Twin.withCells (twin : Twin pairs left right) (twins : TwinCells pairs cells cells')
    (opened : CellsApart left.heap cells) (opened' : CellsApart right.heap cells') :
    Twin pairs { left with openCells := cells } { right with openCells := cells' } :=
  { twin with cells := twins, opened, opened' }

end Lists

section Capturing

/-- The cell of a slot is found on both sides, or it is made on both. -/
theorem abreast_captureSlot {slot : Nat} {done : ObjectId → ObjectId → Machine → Machine → Prop}
    (twin : Twin pairs left right) (output : left.output = said)
    (next : ∀ more a b left' right', Goes pairs left right more left' right' → more a b →
      done a b left' right') :
    Abreast said (captureSlot slot) (captureSlot slot) left right done := by
  simp only [captureSlot, abreast_get_bind]
  have found := TwinCells.lookup twin.cells slot
  cases here : left.openCells.lookup slot with
  | some cell =>
    cases there : right.openCells.lookup slot with
    | some cell' =>
      rw [here, there] at found
      cases found with
      | some paired => exact abreast_pure.mpr (next pairs cell cell' left right twin.goes paired)
    | none =>
      rw [here, there] at found
      cases found
  | none =>
    cases there : right.openCells.lookup slot with
    | some cell' =>
      rw [here, there] at found
      cases found
    | none =>
      refine abreast_bind (abreast_allocate twin (by simp) (by simp) (.onStack slot) output
        fun more a b heap heap' goes paired isCell isCell' => ?_)
      simp only [abreast_modify_bind, abreast_pure]
      refine next more a b _ _ ⟨goes.larger, ?_, goes.older, goes.older', rfl⟩ paired
      refine goes.twin.withCells (TwinCells.insert goes.twin.cells slot paired) ?_ ?_
      · intro entry member text present
        rcases mem_insertCell.mp member with rfl | old
        · cases isCell.symm.trans present
        · exact goes.twin.opened entry old text present
      · intro entry member text present
        rcases mem_insertCell.mp member with rfl | old
        · cases isCell'.symm.trans present
        · exact goes.twin.opened' entry old text present

/-- The captures of a new closure on both sides. -/
theorem abreast_captureAll (captures : List Capture) : ∀ {pairs : Pairing} {left right : Machine}
    {frame frame' : Frame} {a b : ObjectId} {index : Nat}
    {done : Unit → Unit → Machine → Machine → Prop}, Twin pairs left right →
    TwinFrame pairs frame frame' → pairs a b → left.output = said →
    (∀ more left' right', Goes pairs left right more left' right' → done () () left' right') →
    Abreast said (captureAll frame a index captures) (captureAll frame' b index captures) left right
      done := by
  induction captures with
  | nil =>
    intro pairs left right _ _ _ _ _ _ twin _ _ _ next
    exact abreast_pure.mpr (next pairs left right twin.goes)
  | cons capture rest ih =>
    intro pairs left right frame frame' a b index done twin frames paired output next
    have filled : ∀ {more left' right' cell cell'}, Goes pairs left right more left' right' →
        Option.Rel more cell cell' → Abreast said (do
          modifyHeap fun heap => heap.setUpvalue a index cell
          captureAll frame a (index + 1) rest) (do
          modifyHeap fun heap => heap.setUpvalue b index cell'
          captureAll frame' b (index + 1) rest) left' right' done := by
      intro more left' right' cell cell' goes same
      refine abreast_bind (abreast_modifyHeap goes.twin
        (goes.twin.heap.setUpvalue (goes.larger _ _ paired) index same) fun heap heap' goes' => ?_)
      have stored := goes.trans goes'
      refine ih stored.twin (frames.mono stored.larger) (stored.larger _ _ paired)
        (stored.said.trans output) fun most left' right' goes'' => ?_
      exact next most left' right' (stored.trans goes'')
    simp only [captureAll]
    split
    · rw [frames.base]
      refine abreast_bind (abreast_map (abreast_captureSlot twin output
        fun more cell cell' left' right' goes joined => ?_))
      exact filled goes (.some joined)
    · rw [abreast_get_bind]
      split
      · next prototype upvalues here =>
        split
        · next prototype' upvalues' there =>
          obtain _ | _ | ⟨_, across⟩ | _ | _ | _ | _ := twin.heap.alike frames.closure here there
          refine abreast_bind (abreast_given fun cell cell' isCell isCell' => ?_)
          exact filled twin.goes (across.each isCell isCell')
        · exact abreast_goWrong_bind'
      · exact abreast_goWrong_bind

end Capturing

section Closing

/-- The cells from a slot on are closed on both sides. -/
theorem abreast_closeCellsOf {fromSlot : Nat} (cells : List (Nat × ObjectId)) :
    ∀ {cells' : List (Nat × ObjectId)} {pairs : Pairing} {left right : Machine}
      {done : Unit → Unit → Machine → Machine → Prop}, Twin pairs left right →
      left.openCells = cells → right.openCells = cells' → left.output = said →
      (∀ more left' right', Goes pairs left right more left' right' → done () () left' right') →
      Abreast said (closeCellsOf fromSlot cells) (closeCellsOf fromSlot cells') left right done := by
  induction cells with
  | nil =>
    intro cells' pairs left right done twin isCells isCells' output next
    have twins := twin.cells
    rw [isCells, isCells'] at twins
    cases twins
    exact abreast_pure.mpr (next pairs left right twin.goes)
  | cons entry rest ih =>
    intro cells' pairs left right done twin isCells isCells' output next
    have twins := twin.cells
    rw [isCells, isCells'] at twins
    obtain _ | ⟨first, others⟩ := twins
    rename_i entry' rest'
    obtain ⟨index, cell⟩ := entry
    obtain ⟨index', cell'⟩ := entry'
    obtain ⟨same, paired⟩ := first
    dsimp only at same paired
    subst same
    simp only [closeCellsOf]
    refine abreast_ite Iff.rfl (fun _ _ => ?_) fun _ _ =>
      abreast_pure.mpr (next pairs left right twin.goes)
    refine abreast_bind (abreast_slot twin index' fun value value' alike _ _ => ?_)
    refine abreast_bind (abreast_heapValue twin alike output
      fun more value value' heap heap' goes alike => ?_)
    rw [abreast_modify_bind]
    have plain := goes.twin.opened (index', cell) (by simp [isCells])
    have plain' := goes.twin.opened' (index', cell') (by simp [isCells'])
    have closed := goes.twin.heap.setCell (goes.larger _ _ paired) plain plain' alike
    have set := goes.twin.withHeap closed
    have shut : Goes pairs left right more
        { left with openCells := rest, heap := heap.set cell (.cell (.closed value)) }
        { right with openCells := rest', heap := heap'.set cell' (.cell (.closed value')) } := by
      refine ⟨goes.larger, ?_, goes.older.trans set.older, goes.older'.trans set.older', rfl⟩
      refine set.twin.withCells (others.imp fun _ _ same => ⟨same.1, goes.larger _ _ same.2⟩) ?_ ?_
      · exact fun entry member => set.twin.opened entry (by simp [isCells, member])
      · exact fun entry member => set.twin.opened' entry (by simp [isCells', member])
    exact ih shut.twin rfl rfl output fun most left' right' goes' =>
      next most left' right' (shut.trans goes')

theorem abreast_closeCells {fromSlot : Nat} {done : Unit → Unit → Machine → Machine → Prop}
    (twin : Twin pairs left right) (output : left.output = said)
    (next : ∀ more left' right', Goes pairs left right more left' right' → done () () left' right') :
    Abreast said (closeCells fromSlot) (closeCells fromSlot) left right done := by
  simp only [closeCells, abreast_get_bind]
  exact abreast_closeCellsOf left.openCells twin rfl rfl output next

end Closing

section Assigning

/-- The cell of an upvalue on both sides. -/
theorem abreast_upvalueCell {frame frame' : Frame} {index : Nat}
    {done : ObjectId × Cell → ObjectId × Cell → Machine → Machine → Prop}
    (twin : Twin pairs left right) (frames : TwinFrame pairs frame frame')
    (next : ∀ a b cell cell', pairs a b → (Object.cell cell).Twin pairs (.cell cell') →
      left.heap.get? a = some (.cell cell) → right.heap.get? b = some (.cell cell') →
      done (a, cell) (b, cell') left right) :
    Abreast said (upvalueCell frame index) (upvalueCell frame' index) left right done := by
  simp only [upvalueCell, abreast_get_bind]
  split
  · next prototype upvalues here =>
    split
    · next prototype' upvalues' there =>
      obtain _ | _ | ⟨_, across⟩ | _ | _ | _ | _ := twin.heap.alike frames.closure here there
      refine abreast_bind (abreast_given fun a b isCell isCell' => ?_)
      have paired : pairs a b := by
        have same := across.each (Option.join_eq_some_iff.mp isCell)
          (Option.join_eq_some_iff.mp isCell')
        cases same with
        | some paired => exact paired
      rw [abreast_get_bind]
      split
      · next cell isHere =>
        split
        · next cell' isThere =>
          exact abreast_pure.mpr (next a b cell cell' paired (twin.heap.alike paired isHere isThere)
            isHere isThere)
        · exact abreast_goWrong'
      · exact abreast_goWrong
    · exact abreast_goWrong'
  · exact abreast_goWrong

theorem Twin.frameOwning (twin : Twin pairs left right) (slot : Nat) :
    right.frameOwning slot = left.frameOwning slot := by
  have frames := twin.frames
  unfold Machine.frameOwning
  have found : right.frames.findIdx? (fun frame => decide (frame.base ≤ slot))
      = left.frames.findIdx? fun frame => decide (frame.base ≤ slot) := by
    generalize left.frames = ours at frames
    generalize right.frames = others at frames
    induction frames with
    | nil => rfl
    | cons first _ ih => simp only [List.findIdx?_cons, first.base, ih]
  rw [found, frames.length_eq]

/-- A captured variable is assigned to on both sides. -/
theorem abreast_assignCell {a b : ObjectId} {cell cell' : Cell}
    {done : Unit → Unit → Machine → Machine → Prop} (twin : Twin pairs left right)
    (paired : pairs a b) (cells : (Object.cell cell).Twin pairs (.cell cell'))
    (here : left.heap.get? a = some (.cell cell)) (there : right.heap.get? b = some (.cell cell'))
    (same : value.Twin pairs value') (output : left.output = said)
    (next : ∀ more left' right', Goes pairs left right more left' right' → done () () left' right') :
    Abreast said (assignCell a cell value) (assignCell b cell' value') left right done := by
  cases cells with
  | onStack slot =>
    have plainly : ∀ {value value' : Value}, value.Twin pairs value' →
        Abreast said (setSlot slot value) (setSlot slot value') left right done :=
      fun same => abreast_setSlot twin slot same fun twin' =>
        next pairs _ _ ⟨le_rfl, twin', .refl _, .refl _, rfl⟩
    cases same with
    | stack node =>
      simp only [assignCell, abreast_get_bind]
      refine abreast_bind (abreast_struct twin node fun struct struct' alike => ?_)
      rw [twin.frameOwning]
      refine abreast_bind (abreast_copyInto twin alike output fun copy left' right' goes => ?_)
      exact abreast_setSlot goes.twin slot (.stack copy) fun twin' =>
        next pairs _ _ ⟨le_rfl, twin', goes.older, goes.older', goes.said⟩
    | nil => exact plainly .nil
    | bool value => exact plainly (.bool value)
    | number value => exact plainly (.number value)
    | ref joined => exact plainly (.ref joined)
  | closed _ =>
    simp only [assignCell]
    refine abreast_bind (abreast_heapValue twin same output
      fun more value value' heap heap' goes alike => ?_)
    have bounded := twin.heap.bounded paired
    have plain := goes.older.plain bounded.1 (by simp [here])
    have plain' := goes.older'.plain bounded.2 (by simp [there])
    refine abreast_modifyHeap goes.twin
      (goes.twin.heap.setCell (goes.larger _ _ paired) plain plain' alike) fun heap heap' goes' => ?_
    exact next more _ _ (goes.trans goes')

end Assigning

end ScriptMachine.Machine
