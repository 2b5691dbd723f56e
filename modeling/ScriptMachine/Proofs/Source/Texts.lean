import ScriptMachine.Proofs.Source.Executing

set_option autoImplicit false

/- Values and what they show look alike: they are written as the same text, and they are equal to
values of the same data. -/
namespace ScriptMachine.Source

variable {world : World} {legend : Legend} {registry : Registry} {store : Store} {items : List Item}
  {heap : Heap} {live : ObjectId → Prop}

/-- All that live objects refer to is live and there. -/
structure Alive (heap : Heap) (live : ObjectId → Prop) : Prop where
  present : ∀ {id : ObjectId}, live id → ∃ object, heap.get? id = some object
  closed : ∀ {id other : ObjectId} {object : Object}, live id → heap.get? id = some object →
    other ∈ object.references → live other

section Text

/-- How many records are not being written. -/
def unwritten (store : Store) (visiting : List Nat) : Nat :=
  (List.range store.records.size).countP fun id => !visiting.contains id

theorem unwritten_le (visiting : List Nat) : unwritten store visiting ≤ store.records.size := by
  refine Nat.le_trans List.countP_le_length ?_
  rw [List.length_range]

theorem unwritten_cons {id : Nat} {visiting : List Nat} (inside : id < store.records.size)
    (new : id ∉ visiting) : unwritten store (id :: visiting) < unwritten store visiting := by
  refine Heap.countP_lt (List.mem_range.mpr inside) (fun other => ?_) (by simpa using new) (by simp)
  simp only [List.contains_cons, Bool.not_eq_true', Bool.or_eq_false_iff]
  exact fun apart => apart.2

/-- What is being written: records on both sides, in the same order. -/
abbrev Legend.Meets (legend : Legend) (live : ObjectId → Prop) : List ObjectId → List Nat → Prop :=
  List.Forall₂ fun object record => legend object = some (.record record) ∧ live object

theorem Legend.Meets.contains {visiting : List ObjectId} {visiting' : List Nat} {object : ObjectId}
    {record : Nat} (mapped : Mapped world legend registry store items heap) (alive : Alive heap live)
    (met : legend.Meets live visiting visiting') (told : legend object = some (.record record))
    (isLive : live object) : visiting.contains object = visiting'.contains record := by
  have isSome : ∀ {id : ObjectId}, live id → (heap.get? id).isSome = true :=
    fun isLive => Option.isSome_iff_exists.mpr (alive.present isLive)
  rw [Bool.eq_iff_iff, List.contains_iff_mem, List.contains_iff_mem]
  induction met with
  | nil => simp
  | cons first _ ih =>
    rw [List.mem_cons, List.mem_cons, ih]
    refine or_congr_left ⟨fun same => ?_, fun same => ?_⟩
    · subst same
      cases told.symm.trans first.1
      rfl
    · subst same
      exact mapped.single told first.1 (.record _) (isSome isLive) (isSome first.2)

theorem Legend.Meets.apart {visiting : List ObjectId} {visiting' : List Nat} {object : ObjectId}
    (met : legend.Meets live visiting visiting')
    (other : ∀ record, legend object ≠ some (.record record)) : visiting.contains object = false := by
  rw [← Bool.not_eq_true, List.contains_iff_mem]
  induction met with
  | nil => simp
  | @cons first record _ _ told _ ih =>
    rw [List.mem_cons, not_or]
    exact ⟨fun same => other record (same ▸ told.1), ih⟩

/-- The name of a function that a program has made. -/
theorem functionText_shown {source : Nat} {image : Image} {object prototype : ObjectId}
    {upvalues : Array (Option ObjectId)} {nodes : NodeId → Option StackStruct}
    (mapped : Mapped world legend registry store items heap) (alive : Alive heap live)
    (isLive : live object) (told : legend object = some (.closure (some source) image))
    (here : heap.get? object = some (.closure prototype upvalues)) :
    (View.mk heap registry nodes).functionText prototype =
      ascii "<fn " ++ ((store.closures[source]?.map Closure.name).getD []) ++ ascii ">" := by
  obtain ⟨founded, runs⟩ := mapped.grounded told
  obtain ⟨closure, isClosure, context, sameHeap, -, codes, -⟩ := runs source rfl
  have isBody : legend prototype = some (.function image.setting.body) := by
    cases mapped.fits told here with
    | closure _ isBody _ => exact isBody
  have isLive := alive.closed isLive here List.mem_cons_self
  obtain ⟨held, isHeld⟩ := alive.present isLive
  cases mapped.fits isBody isHeld
  obtain ⟨name, isName, isText⟩ : ∃ id, image.setting.body.name = some id ∧
      context.heap.string? id = some closure.name := by
    generalize closure.routine = routine at codes
    cases routine
    exact codes.1
  have toldName := founded.strings (string?_eq_some.mp (sameHeap ▸ isText))
  have isLive : live name := alive.closed isLive isHeld (by
    simp [Object.references, Prototype.references, isName])
  obtain ⟨text, isText'⟩ := alive.present isLive
  cases mapped.fits toldName isText'
  simp only [View.functionText, Heap.prototype?, isHeld, isClosure, Option.map_some, Option.getD_some]
  generalize image.setting.body = body at isName
  cases body
  cases isName
  change ascii "<fn " ++ (heap.string? name).getD [] ++ ascii ">" = _
  rw [string?_eq_some.mpr isText', Option.getD_some]

theorem map_shown {relation : Datum → Value → Prop} {written : Value → Text} {shown : Datum → Text}
    {data : List Datum} {values : List Value} (all : List.Forall₂ relation data values)
    (each : ∀ datum value, value ∈ values → relation datum value → written value = shown datum) :
    values.map written = data.map shown := by
  induction all with
  | nil => rfl
  | cons first _ ih =>
    rw [List.map_cons, List.map_cons, each _ _ List.mem_cons_self first,
      ih fun datum value member => each datum value (List.mem_cons_of_mem _ member)]

/-- A value is written like the datum that it shows, where both texts go as deep as they can. -/
theorem textWithin_shown {nodes : NodeId → Option StackStruct}
    (mapped : Mapped world legend registry store items heap) (declares : Declares world legend registry)
    (alive : Alive heap live) (depth depth' : Nat) {visiting : List ObjectId} {visiting' : List Nat}
    (nested : Bool) {value : Value} {datum : Datum} (shown : datum.Shows legend value)
    (kept : ∀ id, value.object? = some id → live id) (met : legend.Meets live visiting visiting')
    (deep : (View.mk heap registry nodes).unvisited visiting < depth)
    (deep' : unwritten store visiting' < depth') :
    (View.mk heap registry nodes).textWithin depth visiting nested value
      = store.text world depth' visiting' nested datum := by
  induction depth generalizing depth' visiting visiting' nested value datum with
  | zero => cases deep
  | succ depth ih =>
    cases shown with
    | nil => cases depth' <;> rfl
    | bool value => cases depth' <;> cases value <;> rfl
    | number value => cases depth' <;> rfl
    | @string text object told =>
      obtain ⟨_, here⟩ := alive.present (kept object rfl)
      cases mapped.fits told here
      cases depth' <;> simp only [View.textWithin, Store.text, here]
    | @closure source image object told =>
      have isLive := kept object rfl
      obtain ⟨_, here⟩ := alive.present isLive
      have apart : visiting.contains object = false := met.apart (by simp [told])
      cases mapped.fits told here with
      | closure _ _ _ =>
        cases depth' <;> simp only [View.textWithin, Store.text, here, apart, View.objectText,
          functionText_shown mapped alive isLive told here, Bool.false_eq_true, if_false]
    | @native name object told =>
      have isLive := kept object rfl
      obtain ⟨_, here⟩ := alive.present isLive
      have apart : visiting.contains object = false := met.apart (by simp [told])
      cases mapped.fits told here with
      | native _ =>
        cases depth' <;> simp only [View.textWithin, Store.text, here, apart, View.objectText,
          Bool.false_eq_true, if_false]
    | @record record object told =>
      have isLive := kept object rfl
      obtain ⟨_, here⟩ := alive.present isLive
      cases depth' with
      | zero => cases deep'
      | succ depth' =>
        cases mapped.fits told here with
        | @record _ contents type declared values isRecord isType named fields =>
          have isNamed : (View.mk heap registry nodes).structType type = declared := by
            simp only [View.structType, isType, Option.getD_some]
          have once := met.contains mapped alive told isLive
          simp only [View.textWithin, Store.text, here, isRecord, once]
          split
          · simp only [View.elidedText, isNamed, named]
          · next new =>
            have inner : values.toList.map
                  ((View.mk heap registry nodes).textWithin depth (object :: visiting) true)
                = contents.fields.map (store.text world depth' (record :: visiting') true) := by
              refine map_shown fields fun datum value member isShown => ?_
              refine ih depth' true isShown (fun other isOther => ?_) (.cons ⟨told, isLive⟩ met) ?_ ?_
              · exact alive.closed isLive here (List.mem_filterMap.mpr ⟨value, member, isOther⟩)
              · have fewer : (View.mk heap registry nodes).unvisited (object :: visiting) < _ :=
                  View.unvisited_cons here (by rwa [← List.contains_iff_mem, once])
                omega
              · have fewer : unwritten store (record :: visiting') < _ :=
                  unwritten_cons (mapped.grounded told) (by rwa [← List.contains_iff_mem])
                omega
            simp only [View.objectText, inner, isNamed, structText, named, declares.fields isType]

theorem text_shown {nodes : NodeId → Option StackStruct} {value : Value} {datum : Datum}
    (mapped : Mapped world legend registry store items heap) (declares : Declares world legend registry)
    (alive : Alive heap live) (shown : datum.Shows legend value)
    (kept : ∀ id, value.object? = some id → live id) :
    (View.mk heap registry nodes).text value
      = store.text world (store.records.size + 1) [] false datum := by
  refine textWithin_shown mapped declares alive _ _ false shown kept .nil ?_ ?_
  · have few : (View.mk heap registry nodes).unvisited [] ≤ _ := View.unvisited_le _ _
    simp only [View.fullDepth] at few ⊢
    omega
  · exact Nat.lt_succ_of_le (unwritten_le [])

end Text

section Equality

variable {one other : Datum} {a b : Value}

/-- Objects that are there show the same if they are the same. -/
theorem Mapped.eq_iff {x y : ObjectId} (mapped : Mapped world legend registry store items heap)
    (shown : one.Shows legend (.ref x)) (shown' : other.Shows legend (.ref y))
    (present : (heap.get? x).isSome) (present' : (heap.get? y).isSome) : x = y ↔ one = other := by
  refine ⟨fun same => ?_, fun same => ?_⟩
  · subst same
    cases shown <;> cases shown' <;> simp_all
  · subst same
    cases shown with
    | string told =>
      cases shown' with
      | string told' =>
        obtain ⟨_, here⟩ := Option.isSome_iff_exists.mp present
        obtain ⟨_, here'⟩ := Option.isSome_iff_exists.mp present'
        cases mapped.fits told here
        cases mapped.fits told' here'
        exact (eq_of_string mapped.tidy here here').symm
    | closure told =>
      cases shown' with
      | closure told' => exact mapped.single told told' (.closure _ _ _) present present'
    | record told =>
      cases shown' with
      | record told' => exact mapped.single told told' (.record _) present present'
    | native told =>
      cases shown' with
      | native told' => exact mapped.single told told' (.native _) present present'

theorem equal_shown {nodes : NodeId → Option StackStruct}
    (mapped : Mapped world legend registry store items heap) (shown : one.Shows legend a)
    (shown' : other.Shows legend b) (present : ∀ id, a.object? = some id → (heap.get? id).isSome)
    (present' : ∀ id, b.object? = some id → (heap.get? id).isSome) :
    (View.mk heap registry nodes).equal a b = one.equal other := by
  have refs : ∀ {x y : ObjectId}, a = .ref x → b = .ref y → ((x == y) = true ↔ one = other) := by
    rintro x y rfl rfl
    rw [beq_iff_eq]
    exact mapped.eq_iff shown shown' (present x rfl) (present' y rfl)
  cases shown <;> cases shown' <;>
    first
    | rfl
    | exact Bool.eq_iff_iff.mpr ((refs rfl rfl).trans (by simp [Datum.equal]))

end Equality

end ScriptMachine.Source
