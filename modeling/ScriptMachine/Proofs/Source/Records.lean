import ScriptMachine.Proofs.Source.Calling

set_option autoImplicit false

/- What an instruction does to the picture that a machine shows: structs on the heap are read and written,
and what is no struct of a call is not copied. -/
namespace ScriptMachine.Source

open Machine (Delivers)

variable {world : World} {legend : Legend} {store : Store} {items lower : List Item} {image : Image}
  {position base bound index : Nat} {calls : List Call} {call : Call} {frame : Frame}
  {machine middle : Machine} {struck : Fault → Machine → Prop} {datum holder : Datum} {value : Value}
  {name : Text} {constantId : ObjectId}

section Instances

/-- An object is the struct that a record stands for. -/
structure Instance (world : World) (legend : Legend) (store : Store) (machine : Machine) (id : Nat)
    (record : Record) (object : ObjectId) (type : StructId) (declared : StructType)
    (fields : Array Value) : Prop where
  told : legend object = some (.record id)
  here : machine.heap.get? object = some (.record type fields)
  isRecord : store.records[id]? = some record
  isType : machine.registry.struct? type = some declared
  name : declared.name = record.struct
  names : declared.fields = world.fields record.struct
  values : List.Forall₂ (Datum.Shows legend) record.fields fields.toList

theorem Ready.finds_record {id : Nat} (ready : Ready world legend store items call calls frame middle)
    (shown : (Datum.record id).Shows legend value) (isValue : middle.stack[index]? = some value) :
    ∃ record object type declared fields, value = .ref object ∧
      Instance world legend store middle id record object type declared fields := by
  cases shown with
  | @record _ object told =>
    obtain ⟨_, present⟩ := Option.isSome_iff_exists.mp (ready.supplied object (reaches_slot isValue rfl))
    cases ready.depicts.mapped.fits told present with
    | @record _ record type declared fields isRecord isType named values =>
      refine ⟨record, object, type, declared, fields, rfl, told, present, isRecord, isType, named, ?_, values⟩
      rw [← named]
      exact ready.depicts.declares.fields isType

theorem Instance.target {id : Nat} {record : Record} {object : ObjectId} {type : StructId}
    {declared : StructType} {fields : Array Value}
    (isInstance : Instance world legend store middle id record object type declared fields) :
    Machine.target? middle (.ref object) = some ⟨declared, fun slot => fields[slot]?⟩ := by
  have isType : middle.view.registry.struct? type = some declared := isInstance.isType
  simp only [Machine.target?, isInstance.here, View.structType, isType, Option.getD_some]

/-- Other values have no fields. -/
theorem Ready.untargeted (ready : Ready world legend store items call calls frame middle)
    (shown : datum.Shows legend value) (other : ∀ id, datum ≠ .record id) :
    Machine.target? middle value = none := by
  cases shown with
  | nil | bool _ | number _ => rfl
  | string told | closure told | native told =>
    simp only [Machine.target?]
    split
    · next found => cases ready.depicts.mapped.fits told found
    · rfl
  | record _ => exact absurd rfl (other _)

theorem record?_other (other : ∀ id, datum ≠ .record id) : record? store datum = none := by
  cases datum with
  | record id => exact absurd rfl (other id)
  | nil | bool _ | number _ | string _ | closure _ | native _ => rfl

end Instances

section Reading

variable {id : Nat} {record : Record}

theorem readField_other (other : ∀ id, holder ≠ .record id) :
    readField world holder name store = .error (.fault .noFields) store := by
  simp only [readField, bind, EStateM.bind, get, getThe, MonadStateOf.get, EStateM.get, record?_other other]
  rfl

theorem readField_undefined (isRecord : store.records[id]? = some record)
    (unknown : (world.fields record.struct).idxOf? name = none) :
    readField world (.record id) name store
      = .error (.fault (.undefinedField name record.struct)) store := by
  simp only [readField, bind, EStateM.bind, get, getThe, MonadStateOf.get, EStateM.get, record?, isRecord,
    Option.map_some, unknown]
  rfl

theorem readField_found {slot : Nat} (isRecord : store.records[id]? = some record)
    (isField : (world.fields record.struct).idxOf? name = some slot)
    (isValue : record.fields[slot]? = some datum) :
    readField world (.record id) name store = .ok datum store := by
  simp only [readField, bind, EStateM.bind, get, getThe, MonadStateOf.get, EStateM.get, record?, isRecord,
    Option.map_some, isField, isValue]
  rfl

/-- The value in a slot of a struct. -/
theorem getElem?_of_shown {data : List Datum} {values : Array Value} {slot : Nat}
    (shown : List.Forall₂ (Datum.Shows legend) data values.toList) (isValue : values[slot]? = some value) :
    ∃ datum, data[slot]? = some datum ∧ datum.Shows legend value := by
  rw [← Array.getElem?_toList] at isValue
  obtain ⟨inside, isValue⟩ := List.getElem?_eq_some_iff.mp isValue
  have inside' : slot < data.length := shown.length_eq ▸ inside
  refine ⟨data[slot], List.getElem?_eq_getElem inside', ?_⟩
  have here := (List.forall₂_iff_get.mp shown).2 slot inside' inside
  simp only [List.get_eq_getElem, isValue] at here
  exact here

/-- A field is looked up by its name in the struct on top of the stack. -/
theorem Ready.gets {done : Machine.Progress → Machine → Prop}
    (ready : Ready world legend store (lower ++ [.value (.record id)]) ⟨image, position, base⟩ calls
      frame middle)
    (constant : image.setting.body.constants[index]? = some (.ref constantId))
    (string : image.setting.heap.string? constantId = some name)
    (undefined : ∀ record, store.records[id]? = some record →
      (world.fields record.struct).idxOf? name = none → struck (.undefinedField name record.struct) middle)
    (found : ∀ record slot datum value, store.records[id]? = some record →
      (world.fields record.struct).idxOf? name = some slot → record.fields[slot]? = some datum →
      datum.Shows legend value →
      Delivers (Machine.setTop value) middle (fun _ after => done .running after) struck) :
    Delivers (Machine.execute ⟨frame, image.setting.body⟩ ⟨.getProperty, index, 0⟩) middle done struck := by
  simp only [Machine.execute, Machine.getProperty, Machine.delivers_bind]
  refine ready.name constant string fun _ _ => ?_
  rw [Machine.delivers_get]
  refine Machine.delivers_peek fun value isTop => ?_
  obtain ⟨record, _, _, _, _, rfl, isInstance⟩ := ready.finds_record (ready.depicts.top isTop) isTop
  cases isField : (world.fields record.struct).idxOf? name with
  | none =>
    simp only [isInstance.target, StructType.findField, isInstance.names, isField, isInstance.name]
    exact undefined record isInstance.isRecord isField
  | some slot =>
    simp only [isInstance.target, StructType.findField, isInstance.names, isField, Machine.delivers_bind]
    refine Machine.delivers_given fun value isValue => ?_
    obtain ⟨datum, isDatum, isShown⟩ := getElem?_of_shown isInstance.values isValue
    exact found record slot datum value isInstance.isRecord isField isDatum isShown

/-- The next instruction reads a field. -/
theorem Shown.reads_field
    (shown : Shown world ⟨store, lower ++ [.value holder], ⟨image, position, base⟩ :: calls⟩ machine)
    (here : image.setting.body.code[position]? = some ⟨.getProperty, index, 0⟩)
    (constant : image.setting.body.constants[index]? = some (.ref constantId))
    (string : image.setting.heap.string? constantId = some name) :
    Tracks bound (fun datum store => Shown world
      ⟨store, lower ++ [.value datum], ⟨image, position + 1, base⟩ :: calls⟩) machine
      (readField world holder name store) := by
  by_cases isRecord : ∃ id, holder = .record id
  · obtain ⟨id, rfl⟩ := isRecord
    obtain ⟨record, isRecord⟩ : ∃ record, store.records[id]? = some record :=
      shown.acts here fun ready => ready.gets constant string
        (fun record isRecord _ => ⟨record, isRecord⟩)
        fun record _ _ _ isRecord _ _ _ => Delivers.constant ⟨record, isRecord⟩ _ _
    cases isField : (world.fields record.struct).idxOf? name with
    | none =>
      rw [readField_undefined isRecord isField]
      refine Or.inr (shown.strikes here fun ready => ready.gets constant string
        (fun other isOther _ => ?_) fun other _ _ _ isOther isSlot _ _ => ?_)
      · cases isRecord.symm.trans isOther
        exact ⟨rfl, ready.depicts.output⟩
      · cases isRecord.symm.trans isOther
        cases isField.symm.trans isSlot
    | some slot =>
      obtain ⟨datum, isDatum⟩ : ∃ datum, record.fields[slot]? = some datum :=
        shown.acts here fun ready => ready.gets constant string
          (fun other isOther unknown => by
            cases isRecord.symm.trans isOther
            cases isField.symm.trans unknown)
          fun other _ datum _ isOther isSlot isDatum _ => by
            cases isRecord.symm.trans isOther
            cases isField.symm.trans isSlot
            exact Delivers.constant ⟨datum, isDatum⟩ _ _
      rw [readField_found isRecord isField isDatum]
      refine shown.goes here fun ready => ready.gets constant string
        (fun other isOther unknown => ?_) fun other _ _ _ isOther isSlot isValue isShown => ?_
      · cases isRecord.symm.trans isOther
        cases isField.symm.trans unknown
      · cases isRecord.symm.trans isOther
        cases isField.symm.trans isSlot
        cases isDatum.symm.trans isValue
        exact (ready.depicts.setsTop isShown).mono (fun _ _ depicts => ⟨rfl, depicts⟩) fun _ _ struck => struck
  · have other : ∀ id, holder ≠ .record id := fun id same => isRecord ⟨id, same⟩
    rw [readField_other other]
    refine Or.inr (shown.strikes here fun ready => ?_)
    simp only [Machine.execute, Machine.getProperty, Machine.delivers_bind]
    refine ready.name constant string fun _ _ => ?_
    rw [Machine.delivers_get]
    refine Machine.delivers_peek fun value isTop => ?_
    simp only [ready.untargeted (ready.depicts.top isTop) other]
    exact ⟨rfl, ready.depicts.output⟩

end Reading

section Writing

variable {id : Nat} {record : Record}

theorem writeField_other (other : ∀ id, holder ≠ .record id) :
    writeField world holder name datum store = .error (.fault .noFields) store := by
  simp only [writeField, bind, EStateM.bind, get, getThe, MonadStateOf.get, EStateM.get, record?_other other]
  rfl

theorem writeField_undefined (isRecord : store.records[id]? = some record)
    (unknown : (world.fields record.struct).idxOf? name = none) :
    writeField world (.record id) name datum store
      = .error (.fault (.undefinedField name record.struct)) store := by
  simp only [writeField, bind, EStateM.bind, get, getThe, MonadStateOf.get, EStateM.get, record?, isRecord,
    Option.map_some, unknown]
  rfl

theorem writeField_found {slot : Nat} (isRecord : store.records[id]? = some record)
    (isField : (world.fields record.struct).idxOf? name = some slot) :
    writeField world (.record id) name datum store = .ok () { store with
      records := store.records.setIfInBounds id { record with fields := record.fields.set slot datum } } := by
  simp only [writeField, bind, EStateM.bind, get, getThe, MonadStateOf.get, EStateM.get, record?, isRecord,
    Option.map_some, isField]
  rfl

/-- A field of a struct gets a value. -/
theorem Mapped.stored {registry : Registry} {heap : Heap} {object : ObjectId} {type : StructId}
    {declared : StructType} {fields : Array Value}
    (mapped : Mapped world legend registry store items heap) (told : legend object = some (.record id))
    (here : heap.get? object = some (.record type fields)) (isRecord : store.records[id]? = some record)
    (isType : registry.struct? type = some declared) (named : declared.name = record.struct)
    (values : List.Forall₂ (Datum.Shows legend) record.fields fields.toList) (slot : Nat)
    (shown : datum.Shows legend value) :
    Mapped world legend registry { store with
      records := store.records.setIfInBounds id { record with fields := record.fields.set slot datum } }
      items (heap.setField object slot value) := by
  have inside : id < store.records.size := (Array.getElem?_eq_some_iff.mp isRecord).1
  have filled : heap.setField object slot value
      = heap.set object (.record type (fields.setIfInBounds slot value)) := by
    simp only [Heap.setField, here]
  rw [filled]
  refine mapped.altered (Heap.alters_set mapped.tidy (by simp) (by simp [here])) rfl (by simp)
    (Nat.le_refl _) (by simp) rfl (fun entity isTold _ => ?_) (fun other entity old apart isTold there fits => ?_)
    (fun _ _ _ _ _ same => same) fun same => same
  · cases told.symm.trans isTold
    refine .record (Array.getElem?_setIfInBounds_self_of_lt inside) isType named ?_
    rw [Array.toList_setIfInBounds]
    exact rel_set values slot shown
  · refine fits.transfer (Legend.Within.refl _) (fun another kept isEntity same => ?_) (fun _ _ _ same => same)
      fun _ _ _ free same => ⟨free, same⟩
    rw [Array.getElem?_setIfInBounds_ne]
    · exact same
    · rintro rfl
      subst isEntity
      exact apart (mapped.single told isTold (.record _) (by rw [here]; rfl) (by rw [there]; rfl))

/-- A field is looked up by its name in the struct below the value that it gets. -/
theorem Ready.sets {done : Machine.Progress → Machine → Prop}
    (ready : Ready world legend store (lower ++ [.value (.record id), .value datum]) ⟨image, position, base⟩ calls
      frame middle)
    (constant : image.setting.body.constants[index]? = some (.ref constantId))
    (string : image.setting.heap.string? constantId = some name)
    (undefined : ∀ record, store.records[id]? = some record →
      (world.fields record.struct).idxOf? name = none → struck (.undefinedField name record.struct) middle)
    (found : ∀ record slot object type declared fields,
      Instance world legend store middle id record object type declared fields →
      (world.fields record.struct).idxOf? name = some slot →
      Delivers (do
        let value ← Machine.storeField (.ref object) slot (← Machine.peek 0)
        let _ ← Machine.pop
        let _ ← Machine.pop
        Machine.push value) middle (fun _ after => done .running after) struck) :
    Delivers (Machine.execute ⟨frame, image.setting.body⟩ ⟨.setProperty, index, 0⟩) middle done struck := by
  simp only [Machine.execute, Machine.setProperty, Machine.delivers_bind]
  refine ready.name constant string fun _ _ => ?_
  refine Machine.delivers_peek fun value isBelow => ?_
  obtain ⟨record, object, type, declared, fields, rfl, isInstance⟩ :=
    ready.finds_record (ready.depicts.under isBelow) isBelow
  cases isField : (world.fields record.struct).idxOf? name with
  | none =>
    simp only [Machine.delivers_get, isInstance.target, StructType.findField, isInstance.names, isField,
      isInstance.name]
    exact undefined record isInstance.isRecord isField
  | some slot =>
    have stores := found record slot object type declared fields isInstance isField
    simp only [Machine.delivers_get, isInstance.target, StructType.findField, isInstance.names, isField,
      Machine.delivers_bind] at stores ⊢
    exact stores

/-- A struct keeps the value, and the value is left on the stack. -/
theorem Ready.stores_field {slot : Nat} {object : ObjectId} {type : StructId} {declared : StructType}
    {fields : Array Value}
    (ready : Ready world legend store (lower ++ [.value (.record id), .value datum]) ⟨image, position, base⟩ calls
      frame middle)
    (isInstance : Instance world legend store middle id record object type declared fields) :
    Delivers (do
      let value ← Machine.storeField (.ref object) slot (← Machine.peek 0)
      let _ ← Machine.pop
      let _ ← Machine.pop
      Machine.push value) middle
      (fun _ after => ∃ legend, Depicts world legend ⟨{ store with
        records := store.records.setIfInBounds id { record with fields := record.fields.set slot datum } },
        lower ++ [.value datum], ⟨image, position, base⟩ :: calls⟩ after)
      fun fault _ => fault = .stackOverflow := by
  have depicts := ready.depicts
  rw [append_pair] at depicts
  simp only [Machine.delivers_bind]
  refine Machine.delivers_peek fun value isTop => ?_
  have isShown := depicts.top isTop
  have filled : Machine.storeField (.ref object) slot value = do
      let value ← Machine.heapValue [] value
      Machine.modifyHeap fun heap => heap.setField object slot value
      return value := by
    cases value <;> rfl
  have stored : Depicts world legend ⟨{ store with
      records := store.records.setIfInBounds id { record with fields := record.fields.set slot datum } },
      lower ++ [.value (.record id)] ++ [.value datum], ⟨image, position, base⟩ :: calls⟩
      { middle with heap := middle.heap.setField object slot value } := { depicts with
    mapped := depicts.mapped.stored isInstance.told isInstance.here isInstance.isRecord isInstance.isType
      isInstance.name isInstance.values slot isShown
    stack := depicts.stack.imp fun _ _ shown => shown.mono (Legend.Within.refl _) fun _ _ _ same => same }
  rw [filled]
  simp only [Machine.delivers_bind]
  refine delivers_heapValue isShown ?_
  simp only [Machine.modifyHeap, Machine.delivers_modify, Machine.delivers_pure]
  refine Machine.delivers_pop fun _ _ => Machine.delivers_pop fun _ _ => Machine.delivers_push rfl ⟨legend, ?_⟩
  exact ((stored.pop (by simp)).pop (by simp)).push rfl (.value isShown)

/-- The next instruction writes a field. -/
theorem Shown.writes_field
    (shown : Shown world ⟨store, lower ++ [.value holder, .value datum], ⟨image, position, base⟩ :: calls⟩ machine)
    (here : image.setting.body.code[position]? = some ⟨.setProperty, index, 0⟩)
    (constant : image.setting.body.constants[index]? = some (.ref constantId))
    (string : image.setting.heap.string? constantId = some name) :
    Tracks bound (fun _ store => Shown world
      ⟨store, lower ++ [.value datum], ⟨image, position + 1, base⟩ :: calls⟩) machine
      (writeField world holder name datum store) := by
  by_cases isRecord : ∃ id, holder = .record id
  · obtain ⟨id, rfl⟩ := isRecord
    obtain ⟨record, isRecord⟩ : ∃ record, store.records[id]? = some record :=
      shown.acts here fun ready => ready.sets constant string
        (fun record isRecord _ => ⟨record, isRecord⟩)
        fun record _ _ _ _ _ isInstance _ => Delivers.constant ⟨record, isInstance.isRecord⟩ _ _
    cases isField : (world.fields record.struct).idxOf? name with
    | none =>
      rw [writeField_undefined isRecord isField]
      refine Or.inr (shown.strikes here fun ready => ready.sets constant string
        (fun other isOther _ => ?_) fun other _ _ _ _ _ isInstance isSlot => ?_)
      · cases isRecord.symm.trans isOther
        exact ⟨rfl, ready.depicts.output⟩
      · cases isRecord.symm.trans isInstance.isRecord
        cases isField.symm.trans isSlot
    | some slot =>
      rw [writeField_found isRecord isField]
      refine shown.goes here fun ready => ready.sets constant string
        (fun other isOther unknown => ?_) fun other _ _ _ _ _ isInstance isSlot => ?_
      · cases isRecord.symm.trans isOther
        cases isField.symm.trans unknown
      · cases isRecord.symm.trans isInstance.isRecord
        cases isField.symm.trans isSlot
        exact (ready.stores_field isInstance).mono (fun _ _ depicts => ⟨rfl, depicts⟩) fun _ _ struck => struck
  · have other : ∀ id, holder ≠ .record id := fun id same => isRecord ⟨id, same⟩
    rw [writeField_other other]
    refine Or.inr (shown.strikes here fun ready => ?_)
    simp only [Machine.execute, Machine.setProperty, Machine.delivers_bind]
    refine ready.name constant string fun _ _ => ?_
    refine Machine.delivers_peek fun value isBelow => ?_
    simp only [Machine.delivers_get, ready.untargeted (ready.depicts.under isBelow) other]
    exact ⟨rfl, ready.depicts.output⟩

end Writing

section Copies

/-- What is on top of the stack would be moved to the heap if it were a struct that lives in a call. -/
theorem Shown.promotes
    (shown : Shown world ⟨store, lower ++ [.value datum], ⟨image, position, base⟩ :: calls⟩ machine)
    (here : image.setting.body.code[position]? = some ⟨.promote, 0, 0⟩) :
    Arrives machine (Shown world ⟨store, lower ++ [.value datum], ⟨image, position + 1, base⟩ :: calls⟩) := by
  refine shown.goes here fun ready => ?_
  simp only [Machine.execute, Machine.delivers_bind]
  refine Machine.delivers_peek fun value isTop => ?_
  have isShown := ready.depicts.top isTop
  refine delivers_heapValue isShown ?_
  exact (ready.depicts.setsTop isShown).mono (fun _ _ depicts => ⟨rfl, depicts⟩) fun _ _ struck => struck

/-- What is on top of the stack would be copied if it were a struct that lives in a call. -/
theorem Shown.copies
    (shown : Shown world ⟨store, lower ++ [.value datum], ⟨image, position, base⟩ :: calls⟩ machine)
    (here : image.setting.body.code[position]? = some ⟨.copyStruct, 0, 0⟩) :
    Arrives machine (Shown world ⟨store, lower ++ [.value datum], ⟨image, position + 1, base⟩ :: calls⟩) := by
  refine shown.goes here fun {legend _ _} ready => ?_
  simp only [Machine.execute, Machine.copyTop, Machine.delivers_bind]
  refine Machine.delivers_peek fun value isTop => ?_
  split
  · next node => exact absurd rfl (Shows.plain (ready.depicts.top isTop) node)
  · exact ⟨rfl, legend, ready.depicts⟩

end Copies

end ScriptMachine.Source
