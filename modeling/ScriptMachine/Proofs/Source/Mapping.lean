import ScriptMachine.Proofs.Source.Picturing

set_option autoImplicit false

/- What becomes of a heap and of the picture it belongs to, one change at a time. -/
namespace ScriptMachine.Source

variable {world : World} {legend : Legend} {registry : Registry} {store : Store} {items : List Item}
  {heap heap' : Heap} {id : ObjectId} {entity : Entity}
  {object : Object}

section Items

/-- Nothing but the stack has changed, and the variables on it are the same as before. -/
theorem Mapped.withItems {others : List Item} (mapped : Mapped world legend registry store items heap)
    (kept : ∀ {slot id : Nat} {captured : Bool}, others[slot]? = some (.cell id captured) →
      items[slot]? = some (.cell id captured))
    (still : ∀ {slot id : Nat} {object : ObjectId}, heap.get? object = some (.cell (.onStack slot)) →
      items[slot]? = some (.cell id true) → others[slot]? = some (.cell id true)) :
    Mapped world legend registry store others heap where
  tidy := mapped.tidy
  unlimited := mapped.unlimited
  below := mapped.below
  grounded := mapped.grounded
  fits {object entity held} told here := by
    have fits := mapped.fits told here
    cases fits with
    | string text => exact .string text
    | function body => exact .function body
    | closure source code captured => exact .closure source code captured
    | opened isCell => exact .opened (still here isCell)
    | closed apart isCell shown =>
      refine .closed (fun captured member => ?_) isCell shown
      obtain ⟨slot, there⟩ := List.mem_iff_getElem?.mp member
      exact apart captured (List.mem_of_getElem? (kept there))
    | record isRecord isType named fields => exact .record isRecord isType named fields
    | native isHost => exact .native isHost
  opened here := by
    obtain ⟨cell, isCell, told⟩ := mapped.opened here
    exact ⟨cell, still here isCell, told⟩
  single := mapped.single
  distinct one other := mapped.distinct (kept one) (kept other)
  inside here := mapped.inside (kept here)

/-- A value that is no variable is pushed. -/
theorem Mapped.pushed (mapped : Mapped world legend registry store items heap) {item : Item}
    (plain : item.cell? = none) :
    Mapped world legend registry store (items ++ [item]) heap := by
  refine mapped.withItems (fun {slot cell captured} here => ?_) fun {slot _ _} _ here => ?_
  · rw [List.getElem?_append] at here
    split at here
    · exact here
    · next above =>
      have isItem := List.mem_of_getElem? here
      rw [List.mem_singleton] at isItem
      rw [← isItem] at plain
      cases plain
  · rw [List.getElem?_append_left (List.getElem?_eq_some_iff.mp here).1]
    exact here

/-- The stack is cut down where no variable above is captured. -/
theorem Mapped.shrunk (mapped : Mapped world legend registry store items heap) {size : Nat}
    (low : ∀ {slot : Nat} {object : ObjectId}, heap.get? object = some (.cell (.onStack slot)) →
      slot < size) :
    Mapped world legend registry store (items.take size) heap := by
  refine mapped.withItems (fun {slot cell captured} here => ?_) fun here isCell => ?_
  · rw [List.getElem?_take] at here
    split at here
    · exact here
    · cases here
  · rw [List.getElem?_take, if_pos (low here)]
    exact isCell

/-- A value at work is replaced by another one. -/
theorem Mapped.replaced (mapped : Mapped world legend registry store items heap) {slot : Nat}
    {item other : Item} (here : items[slot]? = some other) (before : other.cell? = none)
    (plain : item.cell? = none) :
    Mapped world legend registry store (items.set slot item) heap := by
  refine mapped.withItems (fun {place cell captured} there => ?_) fun {place cell object} _ isCell => ?_
  · rw [List.getElem?_set] at there
    split at there
    · split at there
      · cases there
        cases plain
      · cases there
    · exact there
  · rw [List.getElem?_set, if_neg]
    · exact isCell
    · rintro rfl
      rw [here] at isCell
      cases isCell
      cases before

end Items

section Stores

/-- What is not captured can go on as a variable of its own. -/
theorem Mapped.bound (mapped : Mapped world legend registry store items heap) {slot : Nat}
    {other : Item} (here : items[slot]? = some other) (before : other.cell? = none) (captured : Bool)
    (datum : Datum) :
    Mapped world legend registry { store with cells := store.cells.push datum }
      (items.set slot (.cell store.cells.size captured)) heap where
  tidy := mapped.tidy
  unlimited := mapped.unlimited
  below := mapped.below
  grounded told := (mapped.grounded told).mono (Legend.Within.refl _) (by simp) (Nat.le_refl _) fun _ _ same => same
  fits {object entity held} told there := by
    refine (mapped.fits told there).transfer (Legend.Within.refl _) (fun _ _ _ same => same) (fun cell place _ isCell => ?_)
      fun cell value isEntity apart isValue => ?_
    · rw [List.getElem?_set, if_neg]
      · exact isCell
      · rintro rfl
        rw [here] at isCell
        cases isCell
        cases before
    · subst isEntity
      have old : cell < store.cells.size := mapped.grounded told
      refine ⟨fun captured member => ?_, ?_⟩
      · rcases List.mem_or_eq_of_mem_set member with inside | new
        · exact apart captured inside
        · cases new
          exact Nat.lt_irrefl _ old
      · rw [Array.getElem?_push_lt old]
        exact (Array.getElem?_eq_getElem old).symm.trans isValue
  opened {object place} there := by
    obtain ⟨cell, isCell, told⟩ := mapped.opened there
    refine ⟨cell, ?_, told⟩
    rw [List.getElem?_set, if_neg]
    · exact isCell
    · rintro rfl
      rw [here] at isCell
      cases isCell
      cases before
  single := mapped.single
  distinct {one two cell flag again} first second := by
    rw [List.getElem?_set] at first second
    split at first
    · next atOne =>
      split at second
      · next atTwo => rw [← atOne, ← atTwo]
      · split at first
        · cases first
          exact absurd (mapped.inside second) (Nat.lt_irrefl _)
        · cases first
    · split at second
      · split at second
        · cases second
          exact absurd (mapped.inside first) (Nat.lt_irrefl _)
        · cases second
      · exact mapped.distinct first second
  inside {place cell flag} there := by
    rw [Array.size_push]
    rw [List.getElem?_set] at there
    split at there
    · split at there
      · cases there
        exact Nat.lt_succ_self _
      · cases there
    · exact Nat.lt_succ_of_lt (mapped.inside there)

/-- A variable on the stack is assigned to. -/
theorem Mapped.assigned (mapped : Mapped world legend registry store items heap)
    {slot cell : Nat} {captured : Bool} (here : items[slot]? = some (.cell cell captured))
    (datum : Datum) :
    Mapped world legend registry
      { store with cells := store.cells.setIfInBounds cell datum } items heap where
  tidy := mapped.tidy
  unlimited := mapped.unlimited
  below := mapped.below
  grounded told := (mapped.grounded told).mono (Legend.Within.refl _) (by simp) (Nat.le_refl _) fun _ _ same => same
  fits told there := by
    refine (mapped.fits told there).transfer (Legend.Within.refl _) (fun _ _ _ same => same) (fun _ _ _ same => same)
      fun other value isEntity apart isValue => ⟨apart, ?_⟩
    rw [Array.getElem?_setIfInBounds_ne]
    · exact isValue
    · rintro rfl
      exact apart captured (List.mem_of_getElem? here)
  opened := mapped.opened
  single := mapped.single
  distinct := mapped.distinct
  inside there := by
    rw [Array.size_setIfInBounds]
    exact mapped.inside there

/-- What a closure or a record, a global or the output has been added to shows the same objects. -/
theorem Mapped.withStore {other : Store} (mapped : Mapped world legend registry store items heap)
    (cells : other.cells = store.cells)
    (closures : ∀ (id : Nat) (closure : Closure), store.closures[id]? = some closure →
      other.closures[id]? = some closure)
    (records : ∀ (id : Nat) (record : Record), store.records[id]? = some record →
      other.records[id]? = some record) (more : store.records.size ≤ other.records.size) :
    Mapped world legend registry other items heap where
  tidy := mapped.tidy
  unlimited := mapped.unlimited
  below := mapped.below
  grounded told := (mapped.grounded told).mono (Legend.Within.refl _) (Nat.le_of_eq (congrArg Array.size cells.symm)) more
    closures
  fits told there := (mapped.fits told there).transfer (Legend.Within.refl _) (fun place record _ => records place record)
    (fun _ _ _ same => same) fun _ _ _ apart isValue => ⟨apart, by rw [cells]; exact isValue⟩
  opened := mapped.opened
  single := mapped.single
  distinct := mapped.distinct
  inside there := by
    rw [cells]
    exact mapped.inside there

end Stores

section Heaps

/-- Some objects are gone. -/
theorem Mapped.thin (mapped : Mapped world legend registry store items heap) (thins : heap.Thins heap')
    (config : heap'.config = heap.config) : Mapped world legend registry store items heap' where
  tidy := thins.tidy mapped.tidy
  unlimited := by rw [config, mapped.unlimited]
  below told := by
    rw [thins.next]
    exact mapped.below told
  grounded := mapped.grounded
  fits told here := mapped.fits told (thins.kept here)
  opened here := mapped.opened (thins.kept here)
  single told told' alike here here' := by
    obtain ⟨_, one⟩ := Option.isSome_iff_exists.mp here
    obtain ⟨_, other⟩ := Option.isSome_iff_exists.mp here'
    exact mapped.single told told' alike (by rw [thins.kept one]; rfl) (by rw [thins.kept other]; rfl)
  distinct := mapped.distinct
  inside := mapped.inside

theorem Mapped.new (mapped : Mapped world legend registry store items heap) : legend heap.nextId = none := by
  cases told : legend heap.nextId with
  | none => rfl
  | some entity => exact absurd (mapped.below told) (Nat.lt_irrefl _)

/-- The legend tells of an object that it has not told of before. -/
theorem Mapped.told (mapped : Mapped world legend registry store items heap) (new : legend id = none)
    (small : id < heap.nextId)
    (grounded : entity.Grounded (legend.adding id entity) registry store)
    (fits : ∀ object, heap.get? id = some object →
      entity.Fits world (legend.adding id entity) registry store items object)
    (fresh : ∀ other told, legend other = some told → entity.Alike told →
      (heap.get? other).isSome = false) :
    Mapped world (legend.adding id entity) registry store items heap := by
  have larger : legend.Within (legend.adding id entity) := Legend.within_adding new
  have symm : ∀ {one other : Entity}, one.Alike other → other.Alike one := fun alike => by
    cases alike <;> constructor
  refine ⟨mapped.tidy, mapped.unlimited, fun told => ?_, fun told => ?_, fun told here => ?_,
    fun here => ?_, fun told told' alike here here' => ?_, mapped.distinct, mapped.inside⟩
  · rcases Legend.adding_cases told with ⟨rfl, -⟩ | old
    · exact small
    · exact mapped.below old
  · rcases Legend.adding_cases told with ⟨-, rfl⟩ | old
    · exact grounded
    · exact (mapped.grounded old).mono larger (Nat.le_refl _) (Nat.le_refl _) fun _ _ same => same
  · rcases Legend.adding_cases told with ⟨rfl, rfl⟩ | old
    · exact fits _ here
    · exact (mapped.fits old here).transfer larger (fun _ _ _ same => same) (fun _ _ _ same => same)
        fun _ _ _ apart isValue => ⟨apart, isValue⟩
  · obtain ⟨cell, isCell, isTold⟩ := mapped.opened here
    exact ⟨cell, isCell, larger isTold⟩
  · rcases Legend.adding_cases told with ⟨rfl, rfl⟩ | old <;>
      rcases Legend.adding_cases told' with ⟨rfl, rfl⟩ | old'
    · rfl
    · rw [fresh _ _ old' alike] at here'
      cases here'
    · rw [fresh _ _ old (symm alike)] at here
      cases here
    · exact mapped.single old old' alike here here'

theorem Entity.Alike.symm {one other : Entity} (alike : one.Alike other) : other.Alike one := by
  cases alike <;> constructor

/-- An object has been allocated that the legend tells of. -/
theorem Mapped.gained (mapped : Mapped world legend registry store items heap)
    (gains : heap.Gains heap' object) (config : heap'.config = heap.config)
    (grounded : entity.Grounded (legend.adding heap.nextId entity) registry store)
    (fits : entity.Fits world (legend.adding heap.nextId entity) registry store items object)
    (opened : ∀ slot, object = .cell (.onStack slot) →
      ∃ cell, items[slot]? = some (.cell cell true) ∧ entity = .cell cell)
    (fresh : ∀ other told, legend other = some told → entity.Alike told →
      (heap.get? other).isSome = false) :
    Mapped world (legend.adding heap.nextId entity) registry store items heap' := by
  have larger : legend.Within (legend.adding heap.nextId entity) := Legend.within_adding mapped.new
  have apart : ∀ {other : ObjectId} {told : Entity}, legend other = some told →
      heap'.get? other = heap.get? other := fun told => by
    rw [gains.get?, if_neg (Nat.ne_of_gt (mapped.below told))]
  refine ⟨gains.tidy, by rw [config, mapped.unlimited], fun told => ?_, fun told => ?_,
    fun told here => ?_, fun {other slot} here => ?_, fun told told' alike here here' => ?_,
    mapped.distinct, mapped.inside⟩
  · rw [gains.next]
    rcases Legend.adding_cases told with ⟨rfl, -⟩ | old
    · exact Nat.lt_succ_self _
    · exact Nat.lt_succ_of_lt (mapped.below old)
  · rcases Legend.adding_cases told with ⟨-, rfl⟩ | old
    · exact grounded
    · exact (mapped.grounded old).mono larger (Nat.le_refl _) (Nat.le_refl _) fun _ _ same => same
  · rcases Legend.adding_cases told with ⟨rfl, rfl⟩ | old
    · rw [gains.get?, if_pos rfl] at here
      cases here
      exact fits
    · rw [apart old] at here
      exact (mapped.fits old here).transfer larger (fun _ _ _ same => same) (fun _ _ _ same => same)
        fun _ _ _ apart isValue => ⟨apart, isValue⟩
  · rw [gains.get?] at here
    split at here
    · next same =>
      cases here
      obtain ⟨cell, isCell, rfl⟩ := opened slot rfl
      exact ⟨cell, isCell, same ▸ Legend.adding_self⟩
    · obtain ⟨cell, isCell, isTold⟩ := mapped.opened here
      exact ⟨cell, isCell, larger isTold⟩
  · rcases Legend.adding_cases told with ⟨rfl, rfl⟩ | old <;>
      rcases Legend.adding_cases told' with ⟨rfl, rfl⟩ | old'
    · rfl
    · rw [apart old', fresh _ _ old' alike] at here'
      cases here'
    · rw [apart old, fresh _ _ old alike.symm] at here
      cases here
    · rw [apart old] at here
      rw [apart old'] at here'
      exact mapped.single old old' alike here here'

/-- An object has been replaced by another one that is no open cell, together with what shows it. -/
theorem Mapped.altered {store' : Store} {items' : List Item} (mapped : Mapped world legend registry store items heap)
    (alters : heap.Alters heap' id object) (config : heap'.config = heap.config)
    (plain : ∀ slot, object ≠ .cell (.onStack slot))
    (cells : store.cells.size ≤ store'.cells.size)
    (records : store.records.size ≤ store'.records.size)
    (closures : store'.closures = store.closures)
    (fits : ∀ entity, legend id = some entity → (heap.get? id).isSome →
      entity.Fits world legend registry store' items' object)
    (others : ∀ other entity old, id ≠ other → legend other = some entity →
      heap.get? other = some old → entity.Fits world legend registry store items old →
      entity.Fits world legend registry store' items' old)
    (opened : ∀ other (slot cell : Nat), id ≠ other → heap.get? other = some (.cell (.onStack slot)) →
      items[slot]? = some (.cell cell true) → items'[slot]? = some (.cell cell true))
    (kept : ∀ {slot cell : Nat} {captured : Bool}, items'[slot]? = some (.cell cell captured) →
      items[slot]? = some (.cell cell captured)) :
    Mapped world legend registry store' items' heap' := by
  have present : ∀ {other : ObjectId}, (heap'.get? other).isSome → (heap.get? other).isSome := by
    intro other here
    rw [alters.get?] at here
    split at here
    · simpa using here
    · exact here
  refine ⟨alters.tidy, by rw [config, mapped.unlimited], fun told => ?_, fun told => ?_,
    fun told here => ?_, fun {other slot} here => ?_, fun told told' alike here here' => ?_,
    fun one two => mapped.distinct (kept one) (kept two), fun here => ?_⟩
  · rw [alters.next]
    exact mapped.below told
  · refine (mapped.grounded told).mono (Legend.Within.refl _) cells records fun place closure same => ?_
    rwa [closures]
  · rw [alters.get?] at here
    split at here
    · next same =>
      subst same
      obtain ⟨old, isOld, rfl⟩ := Option.map_eq_some_iff.mp here
      exact fits _ told (by rw [isOld]; rfl)
    · next apart => exact others _ _ _ apart told here (mapped.fits told here)
  · rw [alters.get?] at here
    split at here
    · obtain ⟨_, _, same⟩ := Option.map_eq_some_iff.mp here
      exact absurd same (plain slot)
    · next apart =>
      obtain ⟨cell, isCell, told⟩ := mapped.opened here
      exact ⟨cell, opened _ _ _ apart here isCell, told⟩
  · exact mapped.single told told' alike (present here) (present here')
  · exact Nat.lt_of_lt_of_le (mapped.inside (kept here)) cells

end Heaps

section Variables

/-- A variable that is no longer on the stack is assigned to. -/
theorem Mapped.reassigned (mapped : Mapped world legend registry store items heap)
    {cell : Nat} {old value : Value} {datum : Datum} (told : legend id = some (.cell cell))
    (here : heap.get? id = some (.cell (.closed old))) (shown : datum.Shows legend value) :
    Mapped world legend registry
      { store with cells := store.cells.setIfInBounds cell datum } items
      (heap.set id (.cell (.closed value))) := by
  have inside : cell < store.cells.size := mapped.grounded told
  have plain : ∀ captured, Item.cell cell captured ∉ items := by
    cases mapped.fits told here with
    | closed apart _ _ => exact apart
  refine mapped.altered (Heap.alters_set mapped.tidy (by simp) (by simp [here])) rfl (by simp)
    (by simp) (Nat.le_refl _) rfl (fun entity isTold _ => ?_) (fun other entity object apart isTold there fits => ?_)
    (fun _ _ _ _ _ same => same) fun same => same
  · cases told.symm.trans isTold
    exact .closed plain (Array.getElem?_setIfInBounds_self_of_lt inside) shown
  · refine fits.transfer (Legend.Within.refl _) (fun _ _ _ same => same) (fun _ _ _ same => same)
      fun another other isEntity apart' isValue => ⟨apart', ?_⟩
    rw [Array.getElem?_setIfInBounds_ne]
    · exact isValue
    · rintro rfl
      subst isEntity
      exact apart (mapped.single told isTold (.cell _) (by rw [here]; rfl) (by rw [there]; rfl))

/-- A captured variable is taken off the stack: from now on its cell holds the value. -/
theorem Mapped.closed (mapped : Mapped world legend registry store items heap)
    {slot cell : Nat} {value : Value} {datum : Datum} (told : legend id = some (.cell cell))
    (here : heap.get? id = some (.cell (.onStack slot)))
    (isItem : items[slot]? = some (.cell cell true)) (isValue : store.cells[cell]? = some datum)
    (shown : datum.Shows legend value) :
    Mapped world legend registry store (items.set slot (.value datum))
      (heap.set id (.cell (.closed value))) := by
  have inside : slot < items.length := (List.getElem?_eq_some_iff.mp isItem).1
  have kept : ∀ {place other : Nat} {captured : Bool},
      (items.set slot (.value datum))[place]? = some (.cell other captured) →
        place ≠ slot ∧ items[place]? = some (.cell other captured) := by
    intro place other captured there
    rw [List.getElem?_set] at there
    split at there
    · cases there
    · next apart => exact ⟨fun same => apart same.symm, there⟩
  refine mapped.altered (Heap.alters_set mapped.tidy (by simp) (by simp [here])) rfl (by simp)
    (Nat.le_refl _) (Nat.le_refl _) rfl (fun entity isTold _ => ?_)
    (fun other entity object apart isTold there fits => ?_)
    (fun other place another apart there isCell => ?_) fun there => (kept there).2
  · cases told.symm.trans isTold
    refine .closed (fun captured member => ?_) isValue shown
    obtain ⟨place, there⟩ := List.mem_iff_getElem?.mp member
    obtain ⟨apart, there⟩ := kept there
    exact apart (mapped.distinct there isItem)
  · have apart' : ∀ another, entity = .cell another → another ≠ cell := by
      rintro another rfl rfl
      exact apart (mapped.single told isTold (.cell _) (by rw [here]; rfl) (by rw [there]; rfl))
    refine fits.transfer (Legend.Within.refl _) (fun _ _ _ same => same)
      (fun another place isEntity isCell => ?_) fun another _ isEntity free same => ⟨fun captured member => ?_, same⟩
    · rw [List.getElem?_set, if_neg]
      · exact isCell
      · rintro rfl
        cases isItem.symm.trans isCell
        exact apart' _ isEntity rfl
    · obtain ⟨place, there⟩ := List.mem_iff_getElem?.mp member
      exact free captured (List.mem_of_getElem? (kept there).2)
  · rw [List.getElem?_set, if_neg]
    · exact isCell
    · rintro rfl
      cases isItem.symm.trans isCell
      obtain ⟨again, isAgain, isTold⟩ := mapped.opened there
      cases isItem.symm.trans isAgain
      exact apart (mapped.single told isTold (.cell _) (by rw [here]; rfl) (by rw [there]; rfl))

end Variables

end ScriptMachine.Source
