import ScriptMachine.Proofs.Machine.Filed
import ScriptMachine.Proofs.Source.Operating

set_option autoImplicit false

/- What an instruction does to the picture that a machine shows: the end of a scope and of a call, where
captured variables are taken off the stack, and functions, which capture them. -/
namespace ScriptMachine.Source

open Machine (Delivers Filed)

variable {world : World} {legend : Legend} {store : Store} {items lower : List Item} {image : Image}
  {position base bound : Nat} {calls : List Call} {frame : Frame} {machine middle : Machine}
  {datum : Datum} {value : Value} {item : Item}

/-- What an action delivers is filed as it should be. -/
theorem delivers_filed (free : Machine.Licence) {α : Type} {action : Exec α}
    [touching : Machine.Touching free action] {done : α → Machine → Prop}
    {struck : Fault → Machine → Prop} (filed : Filed machine)
    (delivers : Delivers action machine done struck) :
    Delivers action machine (fun result after => done result after ∧ Filed after) struck := by
  have leads := touching.leads machine
  unfold Machine.Leads at leads
  unfold Delivers at delivers ⊢
  cases ran : action machine with
  | ok result after =>
    rw [ran] at leads delivers
    exact ⟨delivers, filed.touches leads⟩
  | error stop after =>
    rw [ran] at delivers
    cases stop with
    | fault error => exact delivers
    | wrong => trivial

section Closing

/-- What becomes of a stack when the variables from some slot on are no longer captured. -/
structure Closes (start : Nat) (items others : List Item) : Prop where
  length : others.length = items.length
  kept : ∀ {slot : Nat} {item : Item}, items[slot]? = some item →
    others[slot]? = some item ∨ (start ≤ slot ∧ ∃ id, item = .cell id true)

variable {start : Nat}

theorem Closes.refl (start : Nat) (items : List Item) : Closes start items items :=
  ⟨rfl, Or.inl⟩

theorem Closes.set {items others : List Item} {slot id : Nat}
    (closes : Closes start (items.set slot item) others) (above : start ≤ slot)
    (here : items[slot]? = some (.cell id true)) : Closes start items others := by
  refine ⟨by rw [closes.length, List.length_set], fun {place item} there => ?_⟩
  by_cases same : slot = place
  · subst same
    cases here.symm.trans there
    exact Or.inr ⟨above, id, rfl⟩
  · exact closes.kept (by rw [List.getElem?_set, if_neg same]; exact there)

theorem Closes.top {others : List Item} (closes : Closes start (lower ++ [item]) others)
    (plain : item.cell? = none) : others[others.length - 1]? = some item := by
  have length := closes.length
  rw [List.length_append, List.length_singleton] at length
  rw [length, Nat.add_sub_cancel]
  rcases closes.kept (List.getElem?_concat_length ..) with kept | ⟨-, id, rfl⟩
  · exact kept
  · cases plain

theorem Closes.take {others : List Item} (closes : Closes start items others) :
    others.take start = items.take start := by
  apply List.ext_getElem?
  intro slot
  rw [List.getElem?_take, List.getElem?_take]
  split
  · next low =>
    cases here : items[slot]? with
    | none =>
      rw [List.getElem?_eq_none_iff] at here ⊢
      rwa [closes.length]
    | some item =>
      rcases closes.kept here with kept | ⟨above, _⟩
      · exact kept
      · omega
  · rfl

/-- A variable on the stack becomes a value. -/
theorem Depicts.demote {slot : Nat} (depicts : Depicts world legend ⟨store, items, calls⟩ machine)
    (isValue : machine.stack[slot]? = some value)
    (shown : datum.Shows legend value) :
    List.Forall₂ (Item.Shows legend store) (items.set slot (.value datum)) machine.stack.toList := by
  refine rel_set_left depicts.stack slot fun other isOther => ?_
  rw [Array.getElem?_toList] at isOther
  cases isValue.symm.trans isOther
  exact .value shown

/-- The cells of all slots from some slot on are closed. -/
theorem delivers_closeCellsOf {done : Unit → Machine → Prop} {struck : Fault → Machine → Prop}
    (cells : List (Nat × ObjectId)) : ∀ {machine : Machine} {items : List Item},
    machine.openCells = cells → Filed machine → Depicts world legend ⟨store, items, calls⟩ machine →
    (∀ others after, Closes start items others → Depicts world legend ⟨store, others, calls⟩ after →
      (∀ {slot : Nat} {object : ObjectId},
        after.heap.get? object = some (.cell (.onStack slot)) → slot < start) → done () after) →
    Delivers (Machine.closeCellsOf start cells) machine done struck := by
  induction cells with
  | nil =>
    intro machine items isCells filed depicts next
    refine next items machine (.refl start items) depicts fun here => ?_
    rw [filed.listed, isCells] at here
    cases here
  | cons entry rest ih =>
    obtain ⟨index, cell⟩ := entry
    intro machine items isCells filed depicts next
    simp only [Machine.closeCellsOf]
    split
    · next above =>
      simp only [Machine.delivers_bind, Machine.delivers_modify]
      have here := filed.listed.mpr (isCells ▸ List.mem_cons_self)
      obtain ⟨id, isItem, told⟩ := depicts.mapped.opened here
      refine Machine.delivers_slot fun value isValue => ?_
      have isShown := depicts.shows isItem isValue
      cases isShown with
      | @cell _ _ datum _ isDatum isShown =>
        refine delivers_heapValue isShown ?_
        have shut : Machine.Touch ⟨True, True⟩ machine _ := .close value isCells trivial
        have depicts' : Depicts world legend ⟨store, items.set index (.value datum), calls⟩
            { machine with
              openCells := rest
              heap := machine.heap.set cell (.cell (.closed value)) } := { depicts with
          mapped := depicts.mapped.closed told here isItem isDatum isShown
          stack := depicts.demote isValue isShown }
        exact ih rfl (filed.touch shut) depicts' fun others after closes =>
          next others after (closes.set above isItem)
    · next below =>
      refine next items machine (.refl start items) depicts fun {slot object} here => ?_
      rw [filed.listed, isCells] at here
      have descending := filed.descending
      rw [isCells] at descending
      rcases List.mem_cons.mp here with same | member
      · cases same
        omega
      · have lower := (List.pairwise_cons.mp descending).1 slot (List.mem_map.mpr ⟨_, member, rfl⟩)
        dsimp only at lower
        omega

theorem delivers_closeCells {done : Unit → Machine → Prop} {struck : Fault → Machine → Prop}
    (filed : Filed machine) (depicts : Depicts world legend ⟨store, items, calls⟩ machine)
    (next : ∀ others after, Closes start items others →
      Depicts world legend ⟨store, others, calls⟩ after →
      (∀ {slot : Nat} {object : ObjectId},
        after.heap.get? object = some (.cell (.onStack slot)) → slot < start) → done () after) :
    Delivers (Machine.closeCells start) machine done struck := by
  simp only [Machine.closeCells, Machine.delivers_bind, Machine.delivers_get]
  exact delivers_closeCellsOf _ rfl filed depicts next

/-- The uppermost item is dropped. It may be captured where the code knows of that. -/
theorem Shown.drops {flag : Bool}
    (shown : Shown world ⟨store, lower ++ [item], ⟨image, position, base⟩ :: calls⟩ machine)
    (here : image.setting.body.code[position]? = some ⟨if flag then .closeUpvalue else .pop, 0, 0⟩)
    (free : flag = false → ∀ id, item ≠ .cell id true) :
    Arrives machine (Shown world ⟨store, lower, ⟨image, position + 1, base⟩ :: calls⟩) := by
  cases flag with
  | false => exact shown.pops here (free rfl)
  | true =>
    refine shown.goes here fun ready => ?_
    have size := ready.depicts.size
    simp only [List.length_append, List.length_singleton] at size
    simp only [Machine.execute, if_true, Machine.delivers_bind, Machine.delivers_get, size,
      Nat.add_sub_cancel]
    refine delivers_closeCells ready.filed ready.depicts fun others after closes depicts low => ?_
    have popped := depicts.popped (by rw [closes.length]; simp) low
    rw [closes.take, List.take_left] at popped
    exact Machine.delivers_pop fun _ _ => ⟨rfl, _, popped⟩

/-- The innermost call ends. -/
theorem delivers_popFrame {call : Call} {struck : Fault → Machine → Prop}
    (depicts : Depicts world legend ⟨store, items, call :: calls⟩ machine) :
    Delivers Machine.popFrame machine
      (fun _ after => Depicts world legend ⟨store, items, calls⟩ after ∧
        ∀ id, after.heap.get? id = machine.heap.get? id) struck := by
  have frames := depicts.calls
  simp only [Machine.popFrame, Machine.topFrame, Machine.delivers_bind, Machine.delivers_get,
    Machine.delivers_modify]
  refine Machine.delivers_given fun frame _ => ?_
  refine ⟨{ depicts with
    mapped := depicts.mapped.thin (.of_same rfl rfl rfl) rfl
    calls := ?_ }, fun id => Heap.get?_release _ _ id⟩
  change List.Forall₂ _ calls (machine.frames.drop 1)
  generalize machine.frames = active at frames
  cases frames with
  | cons _ others => exact others

/-- A call ends with a result for the one around it. -/
theorem Shown.returns {call : Call} {upper : List Item}
    (shown : Shown world ⟨store, lower ++ upper ++ [.value datum], ⟨image, position, lower.length⟩ :: call :: calls⟩ machine)
    (here : image.setting.body.code[position]? = some ⟨.return, 0, 0⟩) :
    Arrives machine (Shown world ⟨store, lower ++ [.value datum], call :: calls⟩) := by
  refine shown.goes here fun ready => ?_
  simp only [Machine.execute, Machine.finishCall, Machine.delivers_bind, Machine.delivers_get,
    Machine.shrink, ready.base]
  refine delivers_closeCells ready.filed ready.depicts fun others after closes depicts low => ?_
  have isDatum : others[others.length - 1]? = some (.value datum) := closes.top rfl
  refine Machine.delivers_peek fun value isValue => ?_
  rw [depicts.size] at isValue
  cases depicts.shows isDatum isValue with
  | value isShown =>
    have more : (after.frames.length == 1) = false := by
      have frames := depicts.calls.length_eq
      simp only [List.length_cons] at frames
      rw [← frames]
      simp
    simp only [more, Bool.false_eq_true, if_false]
    have cut := depicts.shrink low
    rw [closes.take, List.append_assoc, List.take_left] at cut
    split
    · next node => exact absurd rfl (Shows.plain isShown node)
    · simp only [Machine.delivers_bind, Machine.delivers_pure, Machine.delivers_modify]
      refine (delivers_popFrame cut).mono (fun _ after popped => ?_) fun _ _ struck => struck
      exact Machine.delivers_push rfl ⟨trivial, _, popped.1.push rfl (.value isShown)⟩

/-- The script ends. -/
theorem Shown.ends
    (shown : Shown world ⟨store, lower ++ [.value datum], [⟨image, position, 0⟩]⟩ machine)
    (here : image.setting.body.code[position]? = some ⟨.return, 0, 0⟩) :
    ∃ after legend, Machine.step machine = .ok .finished after ∧
      Depicts world legend ⟨store, [], []⟩ after := by
  obtain ⟨legend, frame, middle, fetches, ready⟩ := shown.ready here
  have safe := Machine.safe_step shown.2.choose_spec.sound
  have delivers : Delivers (Machine.execute ⟨frame, image.setting.body⟩ ⟨.return, 0, 0⟩) middle
      (fun progress after => progress = .finished ∧ Depicts world legend ⟨store, [], []⟩ after)
      fun _ _ => False := by
    simp only [Machine.execute, Machine.finishCall, Machine.delivers_bind, Machine.delivers_get,
      Machine.shrink, ready.base]
    refine delivers_closeCells ready.filed ready.depicts fun others after closes depicts low => ?_
    refine Machine.delivers_peek fun value isValue => ?_
    have one : (after.frames.length == 1) = true := by
      have frames := depicts.calls.length_eq
      rw [← frames]
      rfl
    simp only [one, if_true, Machine.delivers_bind, Machine.delivers_modify]
    refine (delivers_popFrame depicts).mono (fun _ last popped => ⟨rfl, ?_⟩) fun _ _ struck => struck
    have low' : ∀ {slot : Nat} {object : ObjectId},
        last.heap.get? object = some (.cell (.onStack slot)) → slot < 0 := fun {slot object} here => by
      rw [popped.2] at here
      exact low here
    have cut := popped.1.shrink low'
    rwa [List.take_zero] at cut
  unfold Delivers at delivers
  rw [← Shown.step_eq fetches] at delivers
  rw [Machine.Safe] at safe
  split at delivers
  · next progress after ran =>
    obtain ⟨rfl, depicts⟩ := delivers
    exact ⟨after, legend, ran, depicts⟩
  · exact delivers.elim
  · next after ran =>
    rw [ran] at safe
    exact safe.elim

end Closing

end ScriptMachine.Source
