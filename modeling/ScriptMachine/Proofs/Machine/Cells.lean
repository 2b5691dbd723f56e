import ScriptMachine.Proofs.Machine.Moves

set_option autoImplicit false

/- Safety of the actions on captured variables: opening cells, filling the upvalues of a new
closure, closing cells, and assigning through them. -/
namespace ScriptMachine.Machine

variable {program : Program} {live live' : ObjectId → Prop} {pending : List ObjectId}
  {shape : Shape} {machine : Machine}

section Open

variable {slot : Nat} {cell : ObjectId} {cells : List (Nat × ObjectId)}

theorem mem_insertCell {entry : Nat × ObjectId} :
    entry ∈ insertCell slot cell cells ↔ entry = (slot, cell) ∨ entry ∈ cells := by
  fun_induction insertCell slot cell cells with
  | case1 => simp
  | case2 other id rest below ih =>
    simp only [List.mem_cons, ih]
    tauto
  | case3 => simp

theorem insertCell_descending (descending : (cells.map Prod.fst).Pairwise (· > ·))
    (new : slot ∉ cells.map Prod.fst) :
    ((insertCell slot cell cells).map Prod.fst).Pairwise (· > ·) := by
  fun_induction insertCell slot cell cells with
  | case1 => simp
  | case2 other id rest below ih =>
    obtain ⟨first, later⟩ := List.pairwise_cons.mp descending
    rw [List.map_cons, List.mem_cons, not_or] at new
    refine List.pairwise_cons.mpr ⟨fun index member => ?_, ih later new.2⟩
    obtain ⟨entry, inside, rfl⟩ := List.mem_map.mp member
    rcases mem_insertCell.mp inside with same | old
    · rw [same]
      exact below
    · exact first _ (List.mem_map.mpr ⟨entry, old, rfl⟩)
  | case3 other id rest above =>
    rw [List.map_cons, List.mem_cons, not_or] at new
    refine List.pairwise_cons.mpr ⟨fun index member => ?_, descending⟩
    obtain ⟨first, _⟩ := List.pairwise_cons.mp descending
    rcases List.mem_cons.mp member with same | old
    · change slot > index
      rw [same]
      omega
    · have := first index old
      change slot > index
      omega

/-- A cell for a slot that has none becomes one of the open cells. -/
theorem Data.openCell (data : Data program live pending shape machine)
    (present : machine.heap.get? cell = some (.cell (.onStack slot))) (inside : slot < shape.height)
    (new : slot ∉ shape.captured) :
    Data program (With live cell) pending
      { shape with captured := (insertCell slot cell machine.openCells).map Prod.fst }
      { machine with openCells := insertCell slot cell machine.openCells } := by
  have opened : Stored program live pending (insertCell slot cell machine.openCells)
      machine.heap := by
    refine ⟨data.stored.tidy, data.stored.grown, fun {id} isLive => ?_, data.stored.fixed⟩
    obtain ⟨object, here, sane⟩ := data.stored.sane isLive
    exact ⟨object, here, sane.transfer (fun _ _ isLive => isLive)
      (fun _ _ found => ⟨_, found, .refl _⟩) (fun member => member)
      fun _ member => mem_insertCell.mpr (Or.inr member)⟩
  apply data.withCells (opened.enlist present (mem_insertCell.mpr (Or.inl rfl)))
  · exact fun _ _ found => ⟨_, found, .refl _⟩
  · exact fun _ _ => Or.inl
  · apply insertCell_descending
    · rw [data.captured]
      exact data.descending
    · rw [data.captured]
      exact new
  · intro other id member
    rcases mem_insertCell.mp member with same | old
    · cases same
      exact ⟨inside, Or.inr rfl, present⟩
    · obtain ⟨below, isLive, found⟩ := data.cells old
      exact ⟨below, Or.inl isLive, found⟩

/-- A new cell is not counted as live. -/
theorem Lasting.openCell (lasting : Lasting program live machine) (apart : ¬ live cell)
    (inside : slot < machine.stack.size)
    (present : machine.heap.get? cell = some (.cell (.onStack slot))) :
    Lasting program live
      { machine with openCells := insertCell slot cell machine.openCells } where
  toLinked := { lasting.toLinked with }
  stored := by
    refine ⟨lasting.stored.tidy, lasting.stored.grown, fun {id} isLive => ?_, lasting.stored.fixed⟩
    obtain ⟨object, here, sane⟩ := lasting.stored.sane isLive
    exact ⟨object, here, sane.transfer (fun _ _ isLive => isLive)
      (fun _ _ found => ⟨_, found, .refl _⟩) (fun member => member)
      fun _ member => mem_insertCell.mpr (Or.inr member)⟩
  opened := by
    intro place id member
    rcases mem_insertCell.mp member with isNew | old
    · cases isNew
      exact present
    · exact lasting.opened old
  inside := by
    intro place id member
    rcases mem_insertCell.mp member with isNew | old
    · cases isNew
      exact inside
    · exact lasting.inside old
  slots := by
    intro place id object member isLive here
    rcases mem_insertCell.mp member with isNew | old
    · cases isNew
      exact absurd isLive apart
    · exact lasting.slots old isLive here

theorem Spares.capture {made : ObjectId} (spares : Spares program made machine)
    (inside : slot < machine.stack.size) (bytes : UInt64) :
    Intact program { machine with
      heap := machine.heap.prepared (fun _ => [] ++ machine.roots) bytes } ∧
    Spares program made { machine with
      heap := (machine.heap.prepared (fun _ => [] ++ machine.roots) bytes).link (.cell (.onStack slot))
      openCells := insertCell slot machine.heap.nextId machine.openCells } := by
  obtain ⟨live, lasting, apart⟩ := spares
  obtain ⟨live', prepared, fewer⟩ := lasting.prepare [] bytes
  have new : ¬ live' machine.heap.nextId := by
    intro isLive
    obtain ⟨object, present, _⟩ := lasting.stored.sane (fewer _ isLive)
    exact lasting.stored.tidy.fresh present rfl
  refine ⟨⟨live', prepared⟩, live', ?_, fun isLive => apart (fewer made isLive)⟩
  refine (prepared.link (by simp)).openCell new inside ?_
  have next := Heap.prepared_nextId machine.heap (fun _ => [] ++ machine.roots) bytes
  rw [← next]
  exact Heap.get?_link_self _ _

theorem safe_captureSlot {made : ObjectId} {done : ObjectId → Machine → Prop}
    (spares : Spares program made machine)
    (data : Data program live pending shape machine) (inside : slot < shape.height)
    (next : ∀ live' heap openCells captured cell,
      Spares program made { machine with heap, openCells } →
      Data program live' pending { shape with captured } { machine with heap, openCells } →
      (∀ other, other ∈ captured ↔ other = slot ∨ other ∈ shape.captured) → live' cell →
      heap.get? cell = some (.cell (.onStack slot)) →
      (∀ id ∈ machine.roots, live id → live' id ∧ heap.get? id = machine.heap.get? id) →
      done cell { machine with heap, openCells }) :
    Safe program (captureSlot slot) machine done := by
  simp only [captureSlot, safe_bind, safe_get]
  cases found : machine.openCells.lookup slot with
  | some cell =>
    simp only [safe_pure]
    have member : (slot, cell) ∈ machine.openCells := by
      obtain ⟨before, after, split, _⟩ := List.lookup_eq_some_iff.mp found
      simp [split]
    have isCaptured : slot ∈ shape.captured := by
      rw [← data.captured]
      exact List.mem_map.mpr ⟨_, member, rfl⟩
    obtain ⟨_, isLive, here⟩ := data.cells member
    refine next live machine.heap machine.openCells shape.captured cell spares data ?_ isLive here
      fun id _ isLive => ⟨isLive, rfl⟩
    exact fun other => ⟨Or.inr, fun either => either.elim (fun same => same ▸ isCaptured) id⟩
  | none =>
    simp only [safe_bind, safe_modify, safe_pure, Heap.newCell]
    obtain ⟨intact, spares'⟩ := spares.capture (data.size ▸ inside) (Object.cell (.onStack slot)).size.toUInt64
    refine safe_allocate_of_intact data (by simp) intact
      fun live' heap data' rooted same here isHeap => ?_
    rw [← isHeap] at spares'
    have new : slot ∉ shape.captured := by
      rw [← data.captured]
      intro member
      obtain ⟨entry, inCells, isSlot⟩ := List.mem_map.mp member
      have differs := List.lookup_eq_none_iff.mp found entry inCells
      simp [isSlot] at differs
    refine next _ heap _ _ _ spares' (data'.openCell here inside new) ?_ (Or.inr rfl) here ?_
    · intro other
      simp only [← data.captured, List.mem_map]
      constructor
      · rintro ⟨entry, member, isOther⟩
        rcases mem_insertCell.mp member with first | old
        · exact Or.inl (by rw [← isOther, first])
        · exact Or.inr ⟨entry, old, isOther⟩
      · rintro (isSlot | ⟨entry, old, isOther⟩)
        · exact ⟨_, mem_insertCell.mpr (Or.inl rfl), isSlot.symm⟩
        · exact ⟨entry, mem_insertCell.mpr (Or.inr old), isOther⟩
    · intro id member isLive
      have isLive' := rooted id member isLive
      exact ⟨Or.inl isLive', (same id isLive').2⟩

end Open

section Upvalues

variable {top : Frame} {rest : List Frame} {call : Call} {calls : List Call}

/-- The closure of the innermost frame has an upvalue for each captured variable of its code. -/
theorem Data.upvalues (data : Data program live pending shape machine)
    (frames : machine.frames = top :: rest) (active : shape.calls = call :: calls) :
    ∃ prototype upvalues, machine.heap.get? top.closure = some (.closure prototype upvalues) ∧
      upvalues.size = call.body.captures.size ∧
      ∀ upvalue ∈ upvalues, upvalue.elim (top.closure ∈ pending) fun cell =>
        live cell ∧ ∃ contents, machine.heap.get? cell = some (.cell contents) := by
  have runs := data.calls
  rw [frames, active] at runs
  obtain ⟨isLive, body, _, _⟩ := (List.forall₂_cons.mp runs).1
  obtain ⟨object, here, sane⟩ := data.stored.sane isLive
  cases object with
  | closure prototype upvalues =>
    obtain ⟨_, ⟨found, function, count⟩, each⟩ := sane
    refine ⟨prototype, upvalues, here, ?_, each⟩
    simp only [Heap.closurePrototype?, here, function] at body
    cases body
    exact count
  | string _ | function _ | cell _ | record _ _ | native _ =>
    simp [Heap.closurePrototype?, here] at body

theorem safe_upvalueCell {frame : Frame} {index : Nat} {done : ObjectId × Cell → Machine → Prop}
    (data : Data program live pending shape machine) (frames : machine.frames = top :: rest)
    (active : shape.calls = call :: calls) (same : frame.closure = top.closure)
    (complete : top.closure ∉ pending) (inside : index < call.body.captures.size)
    (next : ∀ id contents prototype upvalues, live id →
      machine.heap.get? id = some (.cell contents) →
      machine.heap.get? top.closure = some (.closure prototype upvalues) → some id ∈ upvalues →
      done (id, contents) machine) :
    Safe program (upvalueCell frame index) machine done := by
  obtain ⟨prototype, upvalues, here, count, each⟩ := data.upvalues frames active
  have bound : index < upvalues.size := by rw [count]; exact inside
  simp only [upvalueCell, safe_bind, safe_get, same, here]
  have member := Array.getElem_mem bound
  have sane := each _ member
  cases upvalue : upvalues[index] with
  | none =>
    rw [upvalue] at sane
    exact absurd sane complete
  | some id =>
    rw [upvalue] at sane member
    obtain ⟨isLive, contents, found⟩ := sane
    simp only [Array.getElem?_eq_getElem bound, upvalue, Option.join_some, safe_given, found,
      safe_pure]
    exact next id contents prototype upvalues isLive found here member

/-- A closure that has all its upvalues is complete. -/
theorem Data.complete {closure prototype : ObjectId} {upvalues : Array (Option ObjectId)}
    (data : Data program live [closure] shape machine)
    (present : machine.heap.get? closure = some (.closure prototype upvalues))
    (all : ∀ upvalue ∈ upvalues, upvalue.isSome = true) : Data program live [] shape machine := by
  refine { data with stored := ⟨data.stored.tidy, data.stored.grown, fun {id} isLive => ?_,
    data.stored.fixed⟩ }
  obtain ⟨object, here, sane⟩ := data.stored.sane isLive
  by_cases same : id = closure
  · subst same
    rw [present] at here
    cases here
    obtain ⟨livePrototype, counted, each⟩ := sane
    refine ⟨_, present, livePrototype, counted, fun upvalue member => ?_⟩
    have isSet := all upvalue member
    cases upvalue with
    | none => cases isSet
    | some cell => exact each (some cell) member
  · exact ⟨object, here, sane.transfer (fun _ _ isLive => isLive)
      (fun _ _ found => ⟨_, found, .refl _⟩) (fun member => absurd (List.mem_singleton.mp member) same)
      fun _ member => member⟩

/-- A closure with an upvalue is not code. -/
theorem isCode_of_lt {prototype : ObjectId} {upvalues : Array (Option ObjectId)} {index : Nat}
    (inside : index < upvalues.size) : (Object.closure prototype upvalues).isCode = false := by
  simp only [Object.isCode, Array.isEmpty, decide_eq_false_iff_not]
  omega

/-- Sets an upvalue of a closure that is being made. -/
theorem Data.setUpvalue {closure prototype cell : ObjectId} {upvalues : Array (Option ObjectId)}
    {contents : Cell} {index : Nat} (data : Data program live pending shape machine)
    (inside : index < upvalues.size) (isLive : live closure)
    (present : machine.heap.get? closure = some (.closure prototype upvalues))
    (liveCell : live cell) (isCell : machine.heap.get? cell = some (.cell contents)) :
    Data program live pending shape { machine with
      heap := machine.heap.set closure
        (.closure prototype (upvalues.setIfInBounds index (some cell))) } := by
  obtain ⟨object, here, sane⟩ := data.stored.sane isLive
  rw [present] at here
  cases here
  have keeps : ∀ {id old}, live id → live id → machine.heap.get? id = some old →
      ∃ new, (machine.heap.set closure
        (.closure prototype (upvalues.setIfInBounds index (some cell)))).get? id = some new ∧
        old.Alike new := by
    intro id old _ _ found
    by_cases same : closure = id
    · subst same
      rw [present] at found
      cases found
      exact ⟨_, Heap.get?_set_self present, rfl, Array.size_setIfInBounds⟩
    · exact ⟨old, by rw [Heap.get?_set_of_ne same, found], .refl old⟩
  -- the closure as it was stays well formed in the new heap, and so does the one with the cell
  obtain ⟨livePrototype, ⟨body, function, count⟩, each⟩ :=
    sane.transfer (fun _ _ isLive => isLive) keeps (fun member => member) fun _ member => member
  refine data.set present ⟨rfl, Array.size_setIfInBounds⟩ (isCode_of_lt inside) (by simp)
    (fun _ _ member => member)
    ⟨livePrototype, ⟨body, function, by rw [Array.size_setIfInBounds, count]⟩, ?_⟩
  intro upvalue member
  rcases Array.mem_or_eq_of_mem_setIfInBounds member with old | new
  · exact each upvalue old
  · rw [new]
    obtain ⟨object, found, alike⟩ := keeps liveCell liveCell isCell
    obtain ⟨contents', rfl⟩ := alike.cell
    exact ⟨liveCell, contents', found⟩

theorem Spares.setUpvalue {closure prototype : ObjectId} {upvalues : Array (Option ObjectId)}
    {index : Nat} (spares : Spares program closure machine)
    (present : machine.heap.get? closure = some (.closure prototype upvalues))
    (inside : index < upvalues.size) (cell : ObjectId) :
    Spares program closure { machine with
      heap := machine.heap.set closure
        (.closure prototype (upvalues.setIfInBounds index (some cell))) } := by
  obtain ⟨live, lasting, apart⟩ := spares
  exact ⟨live, lasting.set apart present ⟨rfl, Array.size_setIfInBounds⟩ (isCode_of_lt inside)
    (by simp), apart⟩

/-- Where a closure that the innermost frame makes finds what it captures. -/
def Reachable (shape : Shape) (call : Call) (base : Nat) (capture : Capture) : Prop :=
  if capture.isLocal then base + capture.index < shape.height
  else capture.index < call.body.captures.size

/-- The slots that a list of captures opens cells for. -/
def capturedBy (base : Nat) (captures : List Capture) (slot : Nat) : Prop :=
  ∃ capture ∈ captures, capture.isLocal = true ∧ slot = base + capture.index

theorem safe_captureAll {frame : Frame} {closure prototype : ObjectId}
    {done : Unit → Machine → Prop} (same : frame.closure = top.closure)
    (apart : top.closure ≠ closure) (captures : List Capture) :
    ∀ {index : Nat} {live : ObjectId → Prop} {shape : Shape} {machine : Machine}
      {upvalues : Array (Option ObjectId)},
    Spares program closure machine → Data program live [closure] shape machine →
    machine.frames = top :: rest → shape.calls = call :: calls → closure ∈ machine.stackRoots →
    machine.heap.get? closure = some (.closure prototype upvalues) →
    upvalues.size = index + captures.length →
    (∀ place < index, ∃ cell, upvalues[place]? = some (some cell)) →
    (∀ capture ∈ captures, Reachable shape call frame.base capture) →
    (∀ live' after captured, Data program live' [] { shape with captured } after →
      (∀ slot, slot ∈ captured ↔ slot ∈ shape.captured ∨ capturedBy frame.base captures slot) →
      done () after) →
    Safe program (captureAll frame closure index captures) machine done := by
  induction captures with
  | nil =>
    intro index live shape machine upvalues _ data _ _ _ present count filled _ next
    have all : ∀ upvalue ∈ upvalues, upvalue.isSome = true := by
      intro upvalue member
      obtain ⟨place, bound, here⟩ := Array.mem_iff_getElem.mp member
      obtain ⟨cell, isSet⟩ := filled place (by rw [count] at bound; simpa using bound)
      rw [Array.getElem?_eq_getElem bound, here] at isSet
      rw [Option.some.inj isSet]
      rfl
    simp only [captureAll, safe_pure]
    refine next live machine shape.captured (data.complete present all) fun slot => ?_
    simp [capturedBy]
  | cons capture captures ih =>
    intro index live shape machine upvalues spares data frames active rooted present count filled
      reach next
    -- both kinds of captures give a live cell, and then it is stored and the rest follows
    have proceed : ∀ {live' shape' machine'} {cell : ObjectId} {contents : Cell},
        Spares program closure machine' → Data program live' [closure] shape' machine' →
        machine'.frames = top :: rest → shape'.calls = call :: calls → shape'.height = shape.height →
        closure ∈ machine'.stackRoots →
        machine'.heap.get? closure = some (.closure prototype upvalues) → live' cell →
        machine'.heap.get? cell = some (.cell contents) →
        (∀ live'' after captured, Data program live'' [] { shape' with captured } after →
          (∀ slot, slot ∈ captured ↔ slot ∈ shape'.captured ∨
            capturedBy frame.base captures slot) → done () after) →
        Safe program (do
          modifyHeap fun heap => heap.setUpvalue closure index (some cell)
          captureAll frame closure (index + 1) captures) machine' done := by
      intro live' shape' machine' cell contents spares' data' frames' active' height' rooted'
        present' liveCell isCell next'
      simp only [safe_bind, safe_modifyHeap, Heap.setUpvalue, present']
      have bound : index < upvalues.size := by rw [count, List.length_cons]; omega
      have stored := data'.setUpvalue bound (data'.live_of_stackRoots rooted') present'
        liveCell isCell
      refine ih (spares'.setUpvalue present' bound cell) stored frames' active' rooted'
        (Heap.get?_set_self present') ?_ ?_ ?_ next'
      · rw [Array.size_setIfInBounds, count, List.length_cons]
        omega
      · intro place below
        rw [Array.getElem?_setIfInBounds]
        split
        · exact ⟨cell, by simp⟩
        · exact filled place (by omega)
      · intro other member
        have before := reach other (List.mem_cons_of_mem _ member)
        unfold Reachable at before ⊢
        rw [height']
        exact before
    have here := reach capture List.mem_cons_self
    unfold Reachable at here
    simp only [captureAll]
    cases isLocal : capture.isLocal with
    | true =>
      simp only [isLocal, ↓reduceIte] at here
      rw [if_pos rfl, safe_bind, safe_map]
      refine safe_captureSlot spares data here ?_
      intro live' heap openCells captured cell spares' data' members liveCell isCell kept
      have found := (kept closure (mem_roots_of_stackRoots rooted)
        (data.live_of_stackRoots rooted)).2
      refine proceed spares' data' frames active rfl rooted (by rw [found]; exact present)
        liveCell isCell fun live'' after captured' data'' members' => next live'' after captured' data'' ?_
      intro slot
      rw [members', members]
      simp only [capturedBy, List.mem_cons, exists_eq_or_imp, isLocal, true_and]
      tauto
    | false =>
      simp only [isLocal, Bool.false_eq_true, ↓reduceIte] at here
      obtain ⟨_, enclosing, found, total, each⟩ := data.upvalues frames active
      have bound : capture.index < enclosing.size := by rw [total]; exact here
      have sane := each _ (Array.getElem_mem bound)
      rw [if_neg Bool.false_ne_true, safe_bind, safe_get, same, found]
      simp only
      rw [safe_bind, Array.getElem?_eq_getElem bound, safe_given]
      cases upvalue : enclosing[capture.index] with
      | none =>
        rw [upvalue] at sane
        exact absurd (List.mem_singleton.mp sane) apart
      | some cell =>
        rw [upvalue] at sane
        obtain ⟨liveCell, contents, isCell⟩ := sane
        refine proceed spares data frames active rfl rooted present liveCell isCell
          fun live'' after captured' data'' members' => next live'' after captured' data'' ?_
        intro slot
        rw [members']
        simp only [capturedBy, List.mem_cons, exists_eq_or_imp, isLocal, Bool.false_eq_true,
          false_and, false_or]

end Upvalues

section Close

/-- The cell of the highest captured slot takes the value over. -/
theorem Data.closeCell {index : Nat} {cell : ObjectId} {rest : List (Nat × ObjectId)}
    {value : Value} (data : Data program live pending shape machine)
    (openCells : machine.openCells = (index, cell) :: rest) (kept : value.Kept live) :
    Data program live pending { shape with captured := rest.map Prod.fst }
      { machine with
        heap := machine.heap.set cell (.cell (.closed value))
        openCells := rest } := by
  have descending := data.descending
  rw [← data.captured, openCells, List.map_cons] at descending
  obtain ⟨first, later⟩ := List.pairwise_cons.mp descending
  have present := (data.cells (openCells ▸ List.mem_cons_self)).2.2
  have stillOpen : ∀ slot other, other ≠ cell → (slot, other) ∈ machine.openCells →
      (slot, other) ∈ rest := by
    intro slot other differs member
    rw [openCells] at member
    rcases List.mem_cons.mp member with same | inRest
    · cases same
      exact absurd rfl differs
    · exact inRest
  have alike : (Object.cell (.onStack index)).Alike (.cell (.closed value)) := trivial
  apply data.withCells
    (data.stored.set present alike rfl (fun _ _ member => member) stillOpen fun _ => kept)
  · intro id old _ _ found
    by_cases same : cell = id
    · subst same
      rw [present] at found
      cases found
      exact ⟨_, Heap.get?_set_self present, trivial⟩
    · exact ⟨old, by rw [Heap.get?_set_of_ne same, found], .refl old⟩
  · exact fun _ _ isLive => isLive
  · exact later
  · intro slot id member
    obtain ⟨below, isLive, found⟩ := data.cells (openCells ▸ List.mem_cons_of_mem _ member)
    have differs : cell ≠ id := by
      intro same
      subst same
      rw [present] at found
      cases found
      exact absurd (first index (List.mem_map.mpr ⟨_, member, rfl⟩)) (Nat.lt_irrefl index)
    exact ⟨below, isLive, by rw [Heap.get?_set_of_ne differs, found]⟩

theorem safe_closeCellsOf {fromSlot : Nat} {done : Unit → Machine → Prop}
    (cells : List (Nat × ObjectId)) : ∀ {live : ObjectId → Prop} {shape : Shape} {machine : Machine},
    Data program live [] shape machine → machine.openCells = cells →
    (∀ live' after captured, Data program live' [] { shape with captured } after →
      after.stack = machine.stack → after.frames = machine.frames →
      (∀ slot, slot ∈ captured ↔ slot ∈ shape.captured ∧ slot < fromSlot) → done () after) →
    Safe program (closeCellsOf fromSlot cells) machine done := by
  induction cells with
  | nil =>
    intro live shape machine data openCells next
    have none : shape.captured = [] := by rw [← data.captured, openCells]; rfl
    simp only [closeCellsOf, safe_pure]
    exact next live machine shape.captured data rfl rfl (by simp [none])
  | cons entry rest ih =>
    obtain ⟨index, cell⟩ := entry
    intro live shape machine data openCells next
    have slots : shape.captured = index :: rest.map Prod.fst := by
      rw [← data.captured, openCells, List.map_cons]
    simp only [closeCellsOf]
    split
    · next reached =>
      simp only [safe_bind, safe_modify]
      have inside := (data.cells (openCells ▸ List.mem_cons_self)).1
      refine safe_slot data inside fun value here => ?_
      refine safe_heapValue data here fun live' heap value data' _ kept => ?_
      refine ih (data'.closeCell openCells kept) rfl ?_
      intro live'' after captured data'' sameStack sameFrames members
      refine next live'' after captured data'' sameStack sameFrames fun slot => ?_
      rw [members, slots, List.mem_cons]
      constructor
      · rintro ⟨member, below⟩
        exact ⟨Or.inr member, below⟩
      · rintro ⟨isIndex | member, below⟩
        · omega
        · exact ⟨member, below⟩
    · next below =>
      simp only [safe_pure]
      refine next live machine shape.captured data rfl rfl fun slot => ?_
      refine ⟨fun member => ⟨member, ?_⟩, And.left⟩
      have descending := data.descending
      rw [slots] at descending member
      rcases List.mem_cons.mp member with isIndex | later
      · omega
      · have := (List.pairwise_cons.mp descending).1 slot later
        omega

theorem safe_closeCells {fromSlot : Nat} {done : Unit → Machine → Prop}
    (data : Data program live [] shape machine)
    (next : ∀ live' after captured, Data program live' [] { shape with captured } after →
      after.stack = machine.stack → after.frames = machine.frames →
      (∀ slot, slot ∈ captured ↔ slot ∈ shape.captured ∧ slot < fromSlot) → done () after) :
    Safe program (closeCells fromSlot) machine done := by
  simp only [closeCells, safe_bind, safe_get]
  exact safe_closeCellsOf machine.openCells data rfl next

end Close

section Assign

variable {top : Frame} {rest : List Frame} {call : Call} {calls : List Call}

/-- Every slot belongs to a frame, when the lowest frame starts at the bottom of the stack. -/
theorem frameOwning_spec (bottom : ∃ frame ∈ machine.frames, frame.base = 0) (slot : Nat) :
    ∃ frame, machine.frames[frameOwning machine slot]? = some frame ∧ frame.base ≤ slot := by
  obtain ⟨lowest, member, isZero⟩ := bottom
  unfold frameOwning
  cases found : machine.frames.findIdx? fun frame => frame.base ≤ slot with
  | some position =>
    obtain ⟨bound, owns, _⟩ := List.findIdx?_eq_some_iff_getElem.mp found
    exact ⟨machine.frames[position], List.getElem?_eq_getElem bound, by simpa using owns⟩
  | none =>
    have never := List.findIdx?_eq_none_iff.mp found lowest member
    simp [isZero] at never

theorem safe_assignCell {id prototype : ObjectId} {upvalues : Array (Option ObjectId)}
    {contents : Cell} {value : Value} {index : Nat} {done : Unit → Machine → Prop}
    (data : Data program live [] shape machine) (frames : machine.frames = top :: rest)
    (bottom : ∃ frame ∈ machine.frames, frame.base = 0) (isLive : live id)
    (isCell : machine.heap.get? id = some (.cell contents))
    (closure : machine.heap.get? top.closure = some (.closure prototype upvalues))
    (member : some id ∈ upvalues) (here : machine.stack[index]? = some value)
    (next : ∀ live' after, Data program live' [] shape after → done () after) :
    Safe program (assignCell id contents value) machine done := by
  have liveTop : live top.closure := by
    have runs := data.calls
    rw [frames] at runs
    obtain ⟨_, _, first, _, _⟩ := List.forall₂_cons_left_iff.mp runs
    exact first.live
  cases contents with
  | onStack slot =>
    obtain ⟨object, found, sane⟩ := data.stored.sane isLive
    rw [isCell] at found
    cases found
    have inside := (data.cells sane).1
    have holds := data.values here
    cases value with
    | nil | bool _ | number _ | ref _ =>
      simp only [assignCell, safe_bind, safe_pure]
      exact safe_setSlot data inside holds fun data' => next live _ data'
    | stack node =>
      simp only [assignCell, safe_bind, safe_get]
      obtain ⟨frame, position, below⟩ := frameOwning_spec bottom slot
      refine safe_struct data here fun struct _ fits rooted => ?_
      refine safe_copyInto data position fits rooted fun live' after copy data' _ _ held => ?_
      exact safe_setSlot data' inside (held.holds.mono below) fun data'' => next live' _ data''
  | closed old =>
    simp only [assignCell, safe_bind, safe_modifyHeap]
    refine safe_heapValue data here fun live' heap value data' follows kept => ?_
    -- the cell is an upvalue of the innermost closure, which is a root and has not changed
    have isRoot : top.closure ∈ machine.roots :=
      mem_roots_of_frame (frames ▸ List.mem_cons_self)
    obtain ⟨liveTop', refilled⟩ := follows top.closure isRoot liveTop
    obtain ⟨object, found, same⟩ := refilled closure
    cases same
    obtain ⟨object, found', sane⟩ := data'.stored.sane liveTop'
    rw [found] at found'
    cases found'
    obtain ⟨_, contents, present⟩ := sane.2.2 (some id) member
    have alike : (Object.cell contents).Alike (.cell (.closed value)) := trivial
    refine next live' _ (data'.set present alike rfl ?_ (fun _ _ member => member) kept)
    intro slot isOpen
    cases isOpen
    have liveId := (sane.2.2 (some id) member).1
    obtain ⟨object, foundId, saneId⟩ := data'.stored.sane liveId
    rw [present] at foundId
    cases foundId
    have before := (data.cells saneId).2.2
    rw [isCell] at before
    cases before

end Assign

end ScriptMachine.Machine
