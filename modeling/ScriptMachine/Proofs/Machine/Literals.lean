import ScriptMachine.Proofs.Machine.Instructions

set_option autoImplicit false

/- Safety of the instructions that make closures and structs. What they build is not in use yet
while they allocate, so everything it refers to is kept alive by the stack or by being pinned. -/
namespace ScriptMachine.Machine

variable {program : Program} {live : ObjectId → Prop} {shape : Shape} {machine : Machine}
  {site : Site} {done : Unit → Machine → Prop}

section Closures

theorem safe_newClosure {id : ObjectId} {body : Prototype} {pinned : List ObjectId}
    {done : ObjectId → Machine → Prop} (data : Data program live [] shape machine)
    (here : machine.heap.prototype? id = some body)
    (next : ∀ live' heap, Data program live' [] shape { machine with heap } →
      (∀ other ∈ pinned ++ machine.roots, live other → live' other) →
      (∀ other, live' other → live other ∧ heap.get? other = machine.heap.get? other) →
      heap.get? machine.heap.nextId
        = some (.closure id (Array.replicate body.captures.size none)) →
      done machine.heap.nextId { machine with heap }) :
    Safe program (allocating pinned (Heap.newClosure · id)) machine done := by
  have safe : Safe program (allocating pinned (Heap.allocate ·
      (.closure id (Array.replicate body.captures.size none)))) machine done :=
    safe_allocate data (by simp) next
  rw [safe_allocating] at safe ⊢
  rw [Heap.newClosure_eq _ here]
  exact safe

/-- The prototype that an instruction of the innermost frame names, as long as its data are in
order. -/
theorem makes_live (executing : Executing program live shape machine site) {index : Int}
    {id : ObjectId} {body : Prototype} (here : site.prototype.constant? index = some (.ref id))
    (function : program.heap.prototype? id = some body) :
    live id ∧ machine.heap.prototype? id = some body := by
  have isLive : live id := executing.constant here
  refine ⟨isLive, ?_⟩
  unfold Heap.prototype? at function ⊢
  split at function
  · next found =>
    rw [executing.data.stored.code isLive found rfl]
    exact function
  · cases function

theorem Executing.withHeap {live' : ObjectId → Prop} {heap : Heap}
    (executing : Executing program live shape machine site)
    (data : Data program live' [] shape { machine with heap }) :
    Executing program live' shape { machine with heap } site := by
  obtain ⟨top, rest, call, calls, frames, active, _, closure, base, body⟩ := executing.frame
  refine ⟨data, ⟨top, rest, call, calls, frames, active, ?_, closure, base, body⟩,
    executing.bases, executing.bottom, executing.above⟩
  have runs := data.calls
  simp only [frames, active] at runs
  exact (List.forall₂_cons.mp runs).1

theorem safe_makeClosure {index : Int} {body : Prototype}
    (executing : Executing program live shape machine site)
    (makes : site.prototype.Makes program.heap index body)
    (captures : site.prototype.Captures (shape.height - site.frame.base) body)
    (next : ∀ after captured,
      Leaves program { shape with height := shape.height + 1, captured } after →
      (∀ slot, slot ∈ captured ↔
        slot ∈ shape.captured ∨ capturedBy site.frame.base body.captures.toList slot) →
      done () after) :
    Safe program (makeClosure site index) machine done := by
  obtain ⟨id, here, function⟩ := makes
  obtain ⟨_, present⟩ := makes_live executing here function
  simp only [makeClosure, here, safe_bind, safe_get, present, safe_given]
  refine safe_newClosure executing.data present fun live' heap data' rooted same isNew => ?_
  have executing' := executing.withHeap data'
  obtain ⟨isLive', present'⟩ := makes_live executing' here function
  obtain ⟨top, rest, call, calls, frames, active, runs, closure, base, code⟩ := executing'.frame
  -- the new closure is counted as live, with its upvalues still unset
  have apart : top.closure ≠ machine.heap.nextId := by
    intro equal
    have before := (same _ runs.live).1
    obtain ⟨object, found, _⟩ := executing.data.stored.sane before
    exact executing.data.stored.tidy.fresh found equal.symm
  have enlisted : Data program (With live' machine.heap.nextId) [machine.heap.nextId] shape
      { machine with heap } := by
    have expecting : Data program live' [machine.heap.nextId] shape { machine with heap } :=
      data'.expect (by simp)
    refine expecting.enlist isNew
      ⟨isLive', ⟨body, present', Array.size_replicate⟩, fun upvalue member => ?_⟩
    rw [(Array.mem_replicate.mp member).2]
    exact List.mem_singleton.mpr rfl
  have spares : Spares program machine.heap.nextId { machine with heap } := by
    refine ⟨live', data'.lasting, fun isLive => ?_⟩
    obtain ⟨object, found, _⟩ := executing.data.stored.sane (same _ isLive).1
    exact executing.data.stored.tidy.fresh found rfl
  refine safe_push_of_intact spares.intact enlisted (Or.inr rfl) fun pushed => ?_
  refine safe_captureAll closure apart body.captures.toList (data'.spares_push spares _) pushed frames
    active ?_ isNew ?_ (by simp) ?_ ?_
  · have last : (machine.stack.push (.ref machine.heap.nextId))[machine.stack.size]?
        = some (.ref machine.heap.nextId) := Array.getElem?_push_size
    exact mem_stackRoots last List.mem_cons_self
  · simp
  · intro capture member
    have fitting := captures capture (by simpa using member)
    unfold Reachable
    split
    · next isLocal =>
      rw [if_pos isLocal] at fitting
      have := executing.above
      change site.frame.base + capture.index < shape.height + 1
      omega
    · next notLocal =>
      rw [if_neg notLocal] at fitting
      rw [← code]
      exact fitting
  · intro live'' after captured data'' members
    exact next after captured ⟨live'', data''⟩ members

end Closures

section Literals

variable {code : Instruction} {layout : List Nat}

/-- The values that the entries of a struct literal fill slots with are on the stack. -/
def Filling (machine : Machine) (entries : List (Nat × Value)) : Prop :=
  ∀ entry ∈ entries, ∃ index : Nat, machine.stack[index]? = some entry.2

theorem layout?_eq {body : Prototype} {index : Int} (here : body.layout? index = some layout) :
    0 ≤ index ∧ body.layouts[index.toNat]? = some layout := by
  unfold Prototype.layout? at here
  split at here
  · cases here
  · exact ⟨by omega, here⟩

theorem safe_literal {done : StructId × StructType × List (Nat × Value) → Machine → Prop}
    (data : Data program live [] shape machine) (builds : site.prototype.Builds program.registry code)
    (isLayout : site.prototype.layout? code.b = some layout) (inside : layout.length ≤ shape.height)
    (next : ∀ declared entries, program.registry.struct? code.a.toNat = some declared →
      Filling machine entries → entries.length = layout.length →
      done (code.a.toNat, declared, entries) machine) :
    Safe program (literal site code) machine done := by
  obtain ⟨valid, declared, _, registered, _, _⟩ := builds
  obtain ⟨validLayout, present⟩ := layout?_eq isLayout
  have known : ¬ code.a < 0 := by omega
  have enough : ¬ shape.height < layout.length := by omega
  simp only [literal, structOperand, safe_bind, safe_get, known, ↓reduceIte, Option.bind_some,
    data.registry, registered, safe_pure]
  refine safe_operand validLayout ?_
  simp only [present, safe_given, data.size, enough, ↓reduceIte, safe_pure]
  apply next declared _ registered
  · intro entry member
    obtain ⟨_, inValues⟩ := List.of_mem_zip (a := entry.1) (b := entry.2) member
    obtain ⟨index, here⟩ := Array.mem_iff_getElem?.mp (Array.mem_toList_iff.mp inValues)
    rw [Array.getElem?_extract] at here
    split at here
    · exact ⟨_, here⟩
    · cases here
  · simp only [List.length_zip, Array.length_toList, Array.size_extract, data.size]
    omega

theorem Adoptable.store {struct : StackStruct} {contents : Slot}
    (adoptable : Adoptable program live machine struct) (slot : Nat)
    (unique : StackStruct.Unique contents.ids)
    (numbered : ∀ id ∈ contents.ids, id < machine.nextNode)
    (apart : ∀ id ∈ contents.ids, id ∉ nodeIds machine.frames)
    (distinct : ∀ id ∈ contents.ids, id ∉ struct.ids)
    (fits : StackStruct.FitsSlot (Value.Kept live) program.registry.Sized contents)
    (rooted : ∀ id ∈ StackStruct.contentReferences contents, id ∈ machine.stackRoots) :
    Adoptable program live machine (struct.store slot contents) := by
  have total : ∀ id, (struct.store slot contents).ids.count id
      ≤ contents.ids.count id + struct.ids.count id := fun id => by
    have := StackStruct.count_store_le struct slot contents id
    omega
  have either := fun id => @StackStruct.mem_or_mem_of_count_le _ _ _ id (total id)
  refine ⟨?_, fun id member => ?_, fun id member => ?_, adoptable.fits.store slot fits,
    fun id member => ?_⟩
  · exact StackStruct.unique_of_count_le unique adoptable.unique distinct total
  · exact (either id member).elim (numbered id) (adoptable.numbered id)
  · exact (either id member).elim (apart id) (adoptable.apart id)
  · exact (StackStruct.store_references member).elim (adoptable.rooted id) (rooted id)

theorem Adoptable.skip {struct : StackStruct} {nextNode : NodeId}
    (adoptable : Adoptable program live machine struct) (above : machine.nextNode ≤ nextNode) :
    Adoptable program live { machine with nextNode } struct :=
  ⟨adoptable.unique, fun id member => Nat.lt_of_lt_of_le (adoptable.numbered id member) above,
    adoptable.apart, adoptable.fits, adoptable.rooted⟩

theorem mem_stackRoots_of_kept {value : Value} {index : Nat} {id : ObjectId}
    (here : machine.stack[index]? = some value) (kept : value.Kept live)
    (member : id ∈ StackStruct.contentReferences (.plain value)) : id ∈ machine.stackRoots := by
  cases value with
  | nil | bool _ | number _ => cases member
  | ref object => exact mem_stackRoots here member
  | stack _ => exact kept.elim

theorem safe_fillStruct {done : StackStruct → Machine → Prop} (entries : List (Nat × Value)) :
    ∀ {machine : Machine} {struct : StackStruct}, Data program live [] shape machine →
    Adoptable program live machine struct → Filling machine entries →
    (∀ struct nextNode, Data program live [] shape { machine with nextNode } →
      Adoptable program live { machine with nextNode } struct →
      done struct { machine with nextNode }) →
    Safe program (fillStruct struct entries) machine done := by
  induction entries with
  | nil =>
    intro machine struct data adoptable _ next
    exact next struct machine.nextNode data adoptable
  | cons entry rest ih =>
    intro machine struct data adoptable filling next
    obtain ⟨slot, value⟩ := entry
    obtain ⟨index, here⟩ := filling _ List.mem_cons_self
    have later : Filling machine rest :=
      fun entry member => filling entry (List.mem_cons_of_mem _ member)
    have plain : value.Kept live → Safe program (fillStruct (struct.store slot (.plain value)) rest)
        machine done := by
      intro kept
      refine ih data (adoptable.store slot ?_ ?_ ?_ ?_ kept ?_) later next
      · exact fun _ => by simp [Slot.ids, Slot.inner?]
      · simp [Slot.ids, Slot.inner?]
      · simp [Slot.ids, Slot.inner?]
      · simp [Slot.ids, Slot.inner?]
      · exact fun id member => mem_stackRoots_of_kept here kept member
    have holds := data.values here
    cases value with
    | nil | bool _ | number _ => exact plain trivial
    | ref id => exact plain holds
    | stack node =>
      simp only [fillStruct, safe_bind]
      refine safe_struct data here fun nested _ fits rooted => ?_
      refine safe_fresh data fits rooted fun copy nextNode above sameRefs data' copied fresh => ?_
      have ids : (Slot.nested copy).ids = copy.ids := by simp [Slot.ids, Slot.inner?]
      have refs : StackStruct.contentReferences (.nested copy) = copy.references := by
        simp [StackStruct.contentReferences, StackStruct.slotReferences]
      refine ih data' ((adoptable.skip above).store slot (ids ▸ copied.unique)
        (ids ▸ copied.numbered) (ids ▸ copied.apart) ?_ copied.fits (refs ▸ copied.rooted)) later ?_
      · intro id member inside
        rw [ids] at member
        have := fresh id member
        have := adoptable.numbered id inside
        lia
      · exact fun struct nextNode => next struct nextNode

theorem adoptable_blank (data : Data program live [] shape machine) {type : StructId}
    {declared : StructType} (registered : program.registry.struct? type = some declared) :
    Adoptable program live { machine with nextNode := machine.nextNode + 1 }
      (.blank machine.nextNode type declared.fields.length) := by
  have ids : (StackStruct.blank machine.nextNode type declared.fields.length).ids
      = [machine.nextNode] := by
    rw [StackStruct.ids_eq]
    simp [StackStruct.blank, StackStruct.id, StackStruct.children, StackStruct.slots,
      StackStruct.displaced, Slot.inner?]
  have refs : (StackStruct.blank machine.nextNode type declared.fields.length).references = [] := by
    simp only [StackStruct.blank, StackStruct.references]
    induction declared.fields.length with
    | zero => rfl
    | succ count ih => simpa [List.replicate_succ, StackStruct.slotReferences] using ih
  refine ⟨?_, ?_, ?_, StackStruct.fits_blank ⟨declared, registered, rfl⟩ trivial, ?_⟩
  · rw [ids]
    exact fun id => List.count_le_length
  · rw [ids]
    intro id member
    rw [List.mem_singleton.mp member]
    exact Nat.lt_succ_self _
  · rw [ids]
    intro id member present
    rw [List.mem_singleton.mp member] at present
    exact absurd (data.numbered _ present) (Nat.lt_irrefl _)
  · rw [refs]
    simp

theorem safe_makeStackStruct (executing : Executing program live shape machine site)
    (builds : site.prototype.Builds program.registry code)
    (isLayout : site.prototype.layout? code.b = some layout)
    (inside : site.frame.base + layout.length ≤ shape.height)
    (clear : ∀ slot ∈ shape.captured, slot < shape.height - layout.length)
    (next : ∀ after, Leaves program { shape with height := shape.height - layout.length + 1 } after →
      done () after) :
    Safe program (makeStackStruct site code) machine done := by
  have data := executing.data
  obtain ⟨top, rest, _, _, frames, _, _, _, _, _⟩ := executing.frame
  have position : machine.frames[0]? = some top := by rw [frames]; rfl
  have base := executing.bases top (frames ▸ List.mem_cons_self)
  simp only [makeStackStruct, safe_bind]
  refine safe_literal data builds isLayout (by omega) fun declared entries registered filling count => ?_
  simp only [safe_modifyGet]
  refine safe_fillStruct entries (data.skip (Nat.le_succ machine.nextNode))
    (adoptable_blank data registered) filling fun struct nextNode data' adoptable => ?_
  refine safe_adopt data' position adoptable fun live' after data'' _ same held => ?_
  simp only [safe_get, data''.size, count]
  refine safe_shrink data'' (by omega) clear fun shrunk => ?_
  exact safe_push shrunk (held.holds.mono (by change top.base ≤ shape.height - layout.length; omega))
    fun pushed => next _ ⟨live', pushed⟩

theorem safe_fillRecord {id : ObjectId} {type : StructId} (entries : List (Nat × Value)) :
    ∀ {live : ObjectId → Prop} {machine : Machine} {fields : Array Value},
    Data program live [] shape machine → live id →
    machine.heap.get? id = some (.record type fields) → Filling machine entries →
    (∀ live' heap, Data program live' [] shape { machine with heap } → live' id →
      done () { machine with heap }) →
    Safe program (fillRecord id entries) machine done := by
  induction entries with
  | nil =>
    intro live machine fields data isLive _ _ next
    exact next live machine.heap data isLive
  | cons entry rest ih =>
    intro live machine fields data isLive here filling next
    obtain ⟨slot, value⟩ := entry
    obtain ⟨index, onStack⟩ := filling _ List.mem_cons_self
    simp only [fillRecord, safe_bind, safe_modifyHeap]
    refine safe_heapValue data onStack fun live' heap value' data' follows kept => ?_
    obtain ⟨isLive', refilled⟩ := follows id List.mem_cons_self isLive
    obtain ⟨object, present, same⟩ := refilled here
    obtain ⟨fields', rfl⟩ := same.record
    have filled := data'.setField slot isLive' present kept
    have still : (heap.setField id slot value').get? id
        = some (.record type (fields'.setIfInBounds slot value')) := by
      rw [setField_eq present, Heap.get?_set_self present]
    exact ih filled isLive' still (fun entry member => filling entry (List.mem_cons_of_mem _ member))
      next

theorem safe_makeHeapStruct (data : Data program live [] shape machine)
    (builds : site.prototype.Builds program.registry code)
    (isLayout : site.prototype.layout? code.b = some layout) (inside : layout.length ≤ shape.height)
    (clear : ∀ slot ∈ shape.captured, slot < shape.height - layout.length)
    (next : ∀ after, Leaves program { shape with height := shape.height - layout.length + 1 } after →
      done () after) :
    Safe program (makeHeapStruct site code) machine done := by
  simp only [makeHeapStruct, safe_bind]
  refine safe_literal data builds isLayout inside fun declared entries registered filling count => ?_
  simp only [Heap.newRecord]
  refine safe_allocate data (by simp) fun live' heap data' _ _ here => ?_
  have enlisted := data'.enlist here (by
    refine ⟨⟨declared, registered, Array.size_replicate⟩, fun value member => ?_⟩
    rw [(Array.mem_replicate.mp member).2]
    trivial)
  refine safe_fillRecord entries enlisted (Or.inr rfl) here filling fun live'' heap' data'' isLive => ?_
  simp only [safe_get, data''.size, count]
  refine safe_shrink data'' (by omega) clear fun shrunk => ?_
  exact safe_push shrunk isLive fun pushed => next _ ⟨live'', pushed⟩

end Literals

end ScriptMachine.Machine
