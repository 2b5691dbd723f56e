import ScriptMachine.Proofs.Machine.Cells
import ScriptMachine.Proofs.Machine.Execution
import ScriptMachine.Proofs.Machine.Rest

set_option autoImplicit false

/- Cells and names. The list of open cells holds exactly the cells of the heap that are open, be they
in use or not, and globals and natives are filed under string objects. Nothing is assumed about the
code. -/
namespace ScriptMachine.Machine

variable {free : Licence}

/-- The open cells, the globals and the natives of a machine are those that the heap shows. -/
structure Filed (machine : Machine) : Prop where
  tidy : machine.heap.Tidy
  listed : ∀ {slot : Nat} {id : ObjectId},
    machine.heap.get? id = some (.cell (.onStack slot)) ↔ (slot, id) ∈ machine.openCells
  descending : (machine.openCells.map Prod.fst).Pairwise (· > ·)
  globals : ∀ {name : ObjectId} {value : Value}, machine.globals[name]? = some value →
    ∃ text, machine.heap.get? name = some (.string text)
  natives : ∀ {name id : ObjectId}, machine.natives[name]? = some id →
    (∃ text, machine.heap.get? name = some (.string text)) ∧
      ∃ host, machine.heap.get? id = some (.native host)
  room : machine.stack.size ≤ machine.config.stackSlots

/-- What an object can become while it is in use. -/
inductive Becomes : Object → Object → Prop where
  | same (object : Object) : Becomes object object
  | refilled {old new : Object} : Refills old new → Becomes old new
  | closed (slot : Nat) (value : Value) : Becomes (.cell (.onStack slot)) (.cell (.closed value))

section Touched

variable {before after : Machine} {id : ObjectId} {object : Object}

/-- A collection from the roots of a machine does not remove its open cells. -/
theorem Filed.reached (filed : Filed before) (touch : Touch free before after)
    (reached : Heap.Reaches before.heap.objects before.roots id)
    (present : before.heap.get? id = some object) :
    ∃ new, after.heap.get? id = some new ∧ Becomes object new := by
  have fresh := filed.tidy.fresh present
  cases touch with
  | aside aside => exact ⟨object, by rw [aside.heap, present], .same object⟩
  | collect pinned =>
    refine ⟨object, Heap.get?_collect.mpr ⟨present, ?_⟩, .same object⟩
    exact reached.mono fun root member => .root (List.mem_append_right _ member)
  | recount objects _ _ =>
    refine ⟨object, ?_, .same object⟩
    rw [Heap.get?] at present ⊢
    rwa [objects]
  | link _ _ => exact ⟨object, by rw [Heap.get?_link, if_neg fresh, present], .same object⟩
  | file _ => exact ⟨object, by rw [Heap.get?_file, if_neg fresh, present], .same object⟩
  | @refill other old new found refills =>
    by_cases same : other = id
    · subst same
      rw [present] at found
      cases found
      exact ⟨new, Heap.get?_set_self present, .refilled refills⟩
    · exact ⟨object, by rw [Heap.get?_set_of_ne same, present], .same object⟩
  | capture _ => exact ⟨object, by rw [Heap.get?_link, if_neg fresh, present], .same object⟩
  | @close slot cell rest value opened =>
    by_cases same : cell = id
    · subst same
      have isOpen := filed.listed.mpr (opened ▸ List.mem_cons_self)
      rw [present] at isOpen
      cases isOpen
      exact ⟨_, Heap.get?_set_self present, .closed slot value⟩
    · exact ⟨object, by rw [Heap.get?_set_of_ne same, present], .same object⟩

theorem Becomes.string {text : Text} {new : Object} (becomes : Becomes (.string text) new) :
    new = .string text := by
  cases becomes with
  | same => rfl
  | refilled refills => cases refills

theorem Becomes.native {host : Native} {new : Object} (becomes : Becomes (.native host) new) :
    new = .native host := by
  cases becomes with
  | same => rfl
  | refilled refills => cases refills

/-- Every open cell of the list has its own identifier. -/
theorem Filed.distinct (filed : Filed before) : (before.openCells.map Prod.snd).Nodup := by
  refine List.pairwise_map.mpr (List.Pairwise.imp_of_mem ?_ (List.pairwise_map.mp filed.descending))
  rintro ⟨slot, cell⟩ ⟨other, _⟩ one two above rfl
  have same := (filed.listed.mpr one).symm.trans (filed.listed.mpr two)
  cases same
  exact Nat.lt_irrefl _ above

theorem Filed.cells (filed : Filed before) (touch : Touch free before after) {slot : Nat} :
    after.heap.get? id = some (.cell (.onStack slot)) ↔ (slot, id) ∈ after.openCells := by
  have roots : (slot, id) ∈ before.openCells → id ∈ before.roots := mem_roots_of_cell
  cases touch with
  | aside aside =>
    rw [aside.heap, aside.cells]
    exact filed.listed
  | collect pinned =>
    refine Heap.get?_collect.trans ?_
    rw [filed.listed]
    exact and_iff_left_of_imp fun member => .root (List.mem_append_right _ (roots member))
  | recount objects _ _ =>
    change Heap.get? _ id = _ ↔ _
    rw [Heap.get?, objects]
    exact filed.listed
  | @link object _ notCell =>
    change (before.heap.link _).get? id = _ ↔ _
    rw [Heap.get?_link, ← filed.listed]
    split
    · next same =>
      rw [← same, filed.tidy.absent]
      simp [notCell]
    · exact Iff.rfl
  | @file text _ =>
    change (before.heap.file text).get? id = _ ↔ _
    rw [Heap.get?_file, ← filed.listed]
    split
    · next same =>
      rw [← same, filed.tidy.absent]
      simp
    · exact Iff.rfl
  | @refill other old new present refills =>
    change (before.heap.set other new).get? id = _ ↔ _
    rw [Heap.get?_set, ← filed.listed]
    split
    · next same =>
      rw [← same, present]
      cases refills <;> simp
    · exact Iff.rfl
  | @capture opened unlisted =>
    change (before.heap.link _).get? id = _ ↔ (slot, id) ∈ insertCell opened _ _
    rw [Heap.get?_link, mem_insertCell, ← filed.listed]
    split
    · next same =>
      rw [← same, filed.tidy.absent]
      simp [eq_comm]
    · next differs =>
      have apart : id ≠ before.heap.nextId := fun same => differs same.symm
      simp [apart]
  | @close opened cell rest value isOpened =>
    change (before.heap.set cell _).get? id = _ ↔ (slot, id) ∈ rest
    rw [Heap.get?_set]
    split
    · next same =>
      subst same
      have distinct := filed.distinct
      rw [isOpened, List.map_cons, List.nodup_cons] at distinct
      have gone : (slot, cell) ∉ rest := fun member => distinct.1 (List.mem_map.mpr ⟨_, member, rfl⟩)
      cases before.heap.get? cell <;> simp [gone]
    · next differs =>
      rw [filed.listed, isOpened, List.mem_cons]
      refine or_iff_right fun same => differs ?_
      cases same
      rfl

theorem Filed.touch (filed : Filed before) (touch : Touch free before after) : Filed after := by
  have still := touch.still
  refine ⟨?_, filed.cells touch, ?_, ?_, ?_, ?_⟩
  · cases touch with
    | aside aside =>
      rw [aside.heap]
      exact filed.tidy
    | collect pinned => exact filed.tidy.collect _
    | recount objects next interned => exact filed.tidy.of_same objects next interned
    | link notString _ => exact filed.tidy.link notString
    | file unfiled => exact filed.tidy.intern unfiled
    | refill present refills =>
      refine filed.tidy.set (fun text isString => ?_) fun text isString => ?_
      · rw [isString] at refills
        cases refills
      · rw [present] at isString
        cases isString
        cases refills
    | capture _ => exact filed.tidy.link (by simp)
    | close value opened =>
      refine filed.tidy.set (by simp) fun text isString => ?_
      rw [filed.listed.mpr (opened ▸ List.mem_cons_self)] at isString
      cases isString
  · cases touch with
    | aside aside =>
      rw [aside.cells]
      exact filed.descending
    | collect | recount | link | file | refill => exact filed.descending
    | capture unlisted =>
      refine insertCell_descending filed.descending fun member => ?_
      obtain ⟨entry, inside, same⟩ := List.mem_map.mp member
      have differs := List.lookup_eq_none_iff.mp unlisted entry inside
      simp [same] at differs
    | close value opened =>
      have descending := filed.descending
      rw [opened] at descending
      exact (List.pairwise_cons.mp descending).2
  · intro name value found
    rw [still.globals] at found
    obtain ⟨text, present⟩ := filed.globals found
    obtain ⟨new, here, becomes⟩ := filed.reached touch (.root (mem_roots_of_globalName found)) present
    exact ⟨text, becomes.string ▸ here⟩
  · intro name id found
    rw [still.natives] at found
    obtain ⟨⟨text, isString⟩, host, isNative⟩ := filed.natives found
    obtain ⟨_, one, becomes⟩ := filed.reached touch (.root (mem_roots_of_nativeName found)) isString
    obtain ⟨_, other, becomes'⟩ := filed.reached touch (.root (mem_roots_of_native found)) isNative
    exact ⟨⟨text, becomes.string ▸ one⟩, host, becomes'.native ▸ other⟩
  · have room := filed.room
    rw [still.config]
    cases touch with
    | aside aside => exact Nat.le_trans aside.size (Nat.max_le.mpr ⟨room, Nat.le_refl _⟩)
    | collect | recount | link | file | refill | capture | close => exact room

theorem Filed.touches (filed : Filed before) (touches : Touches free before after) : Filed after := by
  induction touches with
  | refl => exact filed
  | tail _ touch ih => exact ih.touch touch

/-- A closed cell keeps its value. -/
theorem Filed.shut {value : Value} (filed : Filed before) (touches : Touches free before after)
    (shut : Shut id (· = value) before) : Shut id (· = value) after := by
  induction touches with
  | refl => exact shut
  | tail touches touch ih =>
    refine touch.shut ih (Or.inr fun member => ?_)
    obtain ⟨entry, inside, rfl⟩ := List.mem_map.mp member
    obtain ⟨_, isCell, _⟩ := ih.2 _ ((filed.touches touches).listed.mpr inside)
    cases isCell

end Touched

section Executed

variable {before after machine : Machine} {code : Instruction}

/-- Frames and arenas hold neither cells nor names. -/
theorem Filed.withFrames (filed : Filed machine) (frames : List Frame) :
    Filed { machine with frames } :=
  { filed with }

theorem Filed.begins (filed : Filed before) (begins : Begins before after) : Filed after := by
  obtain ⟨base, _, first, _, _, second⟩ := begins
  exact ((filed.touches first).withFrames _).touches second

theorem Filed.struck (filed : Filed before) (struck : Struck code before after) : Filed after := by
  cases struck with
  | here touches => exact filed.touches touches
  | calling _ begins => exact filed.begins begins

/-- Nothing but the cell changes when a closed cell gets a value. -/
theorem Shut.get?_set {id other : ObjectId} {object : Object} {good : Value → Prop}
    (shut : Shut id good machine) (value : Value) (present : machine.heap.get? other = some object)
    (notCell : ∀ cell, object ≠ .cell cell) :
    (machine.heap.set id (.cell (.closed value))).get? other = some object := by
  rw [Heap.get?_set_of_ne, present]
  rintro rfl
  obtain ⟨_, isCell, _⟩ := shut.2 object present
  exact notCell _ isCell

/-- A variable of a call that has ended gets a value. -/
theorem Filed.assign {id : ObjectId} {good : Value → Prop} (filed : Filed machine)
    (shut : Shut id good machine) (value : Value) :
    Filed { machine with heap := machine.heap.set id (.cell (.closed value)) } := by
  refine ⟨?_, ?_, filed.descending, fun found => ?_, fun found => ?_, filed.room⟩
  · refine filed.tidy.set (by simp) fun text isString => ?_
    obtain ⟨_, isCell, _⟩ := shut.2 _ isString
    cases isCell
  · intro slot other
    change (machine.heap.set id _).get? other = _ ↔ (slot, other) ∈ machine.openCells
    rw [Heap.get?_set, ← filed.listed]
    split
    · next same =>
      subst same
      cases present : machine.heap.get? id with
      | none => simp
      | some object =>
        obtain ⟨_, rfl, _⟩ := shut.2 object present
        simp
    · exact Iff.rfl
  · obtain ⟨text, isString⟩ := filed.globals found
    exact ⟨text, shut.get?_set value isString (by simp)⟩
  · obtain ⟨⟨text, isString⟩, host, isNative⟩ := filed.natives found
    exact ⟨⟨text, shut.get?_set value isString (by simp)⟩, host, shut.get?_set value isNative (by simp)⟩

theorem Filed.store {key : ObjectId} {text : Text} (filed : Filed machine)
    (isName : machine.heap.string? key = some text) (value : Value) :
    Filed { machine with globals := machine.globals.insert key value } := by
  refine { filed with globals := fun {name other} found => ?_ }
  rw [Std.TreeMap.getElem?_insert] at found
  split at found
  · next same =>
    rw [Std.LawfulEqCmp.compare_eq_iff_eq] at same
    subst same
    refine ⟨text, ?_⟩
    unfold Heap.string? at isName
    split at isName
    · next present =>
      cases isName
      exact present
    · cases isName
  · exact filed.globals found

theorem Filed.executes (filed : Filed before) (executes : Executes code before after) :
    Filed after := by
  cases executes with
  | stays _ touches => exact filed.touches touches
  | jumps _ touches => exact (filed.touches touches).withFrames _
  | assigns value _ touches shut => exact (filed.touches touches).assign shut value
  | stores value _ first isName second =>
    exact ((filed.touches first).store isName value).touches second
  | calls _ begins => exact filed.begins begins
  | returns _ first second => exact ((filed.touches first).withFrames _).touches second

end Executed

section Resetting

variable {machine : Machine}

/-- Closing the open cells one after the other only touches the machine. -/
theorem touches_closedWith (value : Nat → Value) (cells : List (Nat × ObjectId)) :
    ∀ {machine : Machine}, machine.openCells = cells →
      Touches ⟨True, True⟩ machine
        { machine with heap := closedWith value cells machine.heap, openCells := [] } := by
  induction cells with
  | nil =>
    intro machine opened
    have same : { machine with heap := closedWith value [] machine.heap, openCells := [] }
        = machine := by
      cases machine
      cases opened
      rfl
    rw [same]
  | cons entry rest ih =>
    intro machine opened
    have closed : Touch ⟨True, True⟩ machine _ := .close (value entry.1) opened trivial
    exact .head closed (ih rfl)

theorem Filed.reset (filed : Filed machine) : Filed machine.reset := by
  have closed := filed.touches (touches_closedWith machine.abandonedValue machine.openCells rfl)
  let heap := (closedWith machine.abandonedValue machine.openCells machine.heap).release
    machine.arenaBytes
  have counted := closed.touch (@Touch.recount ⟨True, True⟩ _ heap rfl rfl rfl (Or.inr trivial))
  exact { counted with room := Nat.zero_le _ }

theorem nextId_closedWith (value : Nat → Value) (cells : List (Nat × ObjectId)) (heap : Heap) :
    (closedWith value cells heap).nextId = heap.nextId := by
  induction cells generalizing heap with
  | nil => rfl
  | cons entry rest ih => exact ih _

/-- What is not in the list stays as it is. -/
theorem get?_closedWith {value : Nat → Value} {id : ObjectId} (cells : List (Nat × ObjectId))
    (heap : Heap) (unlisted : id ∉ cells.map Prod.snd) :
    (closedWith value cells heap).get? id = heap.get? id := by
  induction cells generalizing heap with
  | nil => rfl
  | cons entry rest ih =>
    rw [List.map_cons, List.mem_cons, not_or] at unlisted
    exact (ih _ unlisted.2).trans (Heap.get?_set_of_ne (Ne.symm unlisted.1))

/-- A cell of the list is closed with its value. -/
theorem get?_closedWith_of_mem {value : Nat → Value} {slot : Nat} {id : ObjectId} {old : Object}
    (cells : List (Nat × ObjectId)) (heap : Heap) (distinct : (cells.map Prod.snd).Nodup)
    (member : (slot, id) ∈ cells) (present : heap.get? id = some old) :
    (closedWith value cells heap).get? id = some (.cell (.closed (value slot))) := by
  induction cells generalizing heap with
  | nil => cases member
  | cons entry rest ih =>
    rw [List.map_cons, List.nodup_cons] at distinct
    rcases List.mem_cons.mp member with rfl | later
    · exact (get?_closedWith rest _ distinct.1).trans (Heap.get?_set_self present)
    · refine ih _ distinct.2 later ?_
      rw [Heap.get?_set_of_ne, present]
      rintro same
      exact distinct.1 (same ▸ List.mem_map.mpr ⟨_, later, rfl⟩)

theorem Filed.get?_reset_open (filed : Filed machine) {slot : Nat} {id : ObjectId}
    (present : machine.heap.get? id = some (.cell (.onStack slot))) :
    machine.reset.heap.get? id = some (.cell (.closed (machine.abandonedValue slot))) :=
  get?_closedWith_of_mem machine.openCells machine.heap filed.distinct (filed.listed.mp present)
    present

theorem Filed.get?_reset (filed : Filed machine) {id : ObjectId}
    (shut : ∀ slot, machine.heap.get? id ≠ some (.cell (.onStack slot))) :
    machine.reset.heap.get? id = machine.heap.get? id := by
  refine get?_closedWith machine.openCells machine.heap fun member => ?_
  obtain ⟨entry, inside, rfl⟩ := List.mem_map.mp member
  exact shut entry.1 (filed.listed.mpr inside)

end Resetting

end ScriptMachine.Machine
