import ScriptMachine.Proofs.Heap.Reach

set_option autoImplicit false

/- The object table under each heap operation, and the two facts that hold of every table: an
identifier is in use only below the next one, and the strings are exactly the interned ones. -/
namespace ScriptMachine.Heap

@[simp] theorem get?_set (heap : Heap) (id other : ObjectId) (object : Object) :
    (heap.set id object).get? other
      = if id = other then (heap.get? other).map fun _ => object else heap.get? other := by
  simp only [set, get?, Std.TreeMap.getElem?_modify, Std.LawfulEqCmp.compare_eq_iff_eq]
  split
  · next same => rw [same]
  · rfl

@[simp] theorem get?_link (heap : Heap) (object : Object) (other : ObjectId) :
    (heap.link object).get? other
      = if heap.nextId = other then some object else heap.get? other := by
  simp only [link, get?, Std.TreeMap.getElem?_insert, Std.LawfulEqCmp.compare_eq_iff_eq]

@[simp] theorem get?_release (heap : Heap) (bytes : UInt64) (other : ObjectId) :
    (heap.release bytes).get? other = heap.get? other := rfl

@[simp] theorem get?_empty (config : HeapConfig) (id : ObjectId) :
    (empty config).get? id = none := by
  simp [empty, get?]

theorem get?_set_of_ne {heap : Heap} {id other : ObjectId} {object : Object} (apart : id ≠ other) :
    (heap.set id object).get? other = heap.get? other := by
  rw [get?_set, if_neg apart]

theorem get?_set_self {heap : Heap} {id : ObjectId} {old object : Object}
    (present : heap.get? id = some old) : (heap.set id object).get? id = some object := by
  rw [get?_set, if_pos rfl, present, Option.map_some]

theorem get?_link_self (heap : Heap) (object : Object) :
    (heap.link object).get? heap.nextId = some object := by
  rw [get?_link, if_pos rfl]

/-- A table in order. -/
structure Tidy (heap : Heap) : Prop where
  bounded : ∀ {id : ObjectId} {object : Object}, heap.get? id = some object → id < heap.nextId
  filed : ∀ {text : Text} {id : ObjectId},
    heap.interned[text]? = some id ↔ heap.get? id = some (.string text)

theorem Tidy.fresh {heap : Heap} (tidy : heap.Tidy) {id : ObjectId} {object : Object}
    (present : heap.get? id = some object) : heap.nextId ≠ id :=
  Nat.ne_of_gt (tidy.bounded present)

theorem Tidy.absent {heap : Heap} (tidy : heap.Tidy) : heap.get? heap.nextId = none := by
  cases present : heap.get? heap.nextId with
  | none => rfl
  | some object => exact absurd (tidy.bounded present) (Nat.lt_irrefl _)

theorem Tidy.empty (config : HeapConfig) : (Heap.empty config).Tidy where
  bounded present := by simp at present
  filed := by
    intro text id
    simp [Heap.empty, get?]

theorem Tidy.swept {heap : Heap} (tidy : heap.Tidy) (marked : Std.TreeSet ObjectId) :
    (heap.swept marked).Tidy where
  bounded present := tidy.bounded (get?_swept.mp present).1
  filed := by
    intro text id
    rw [interned_swept, get?_swept, tidy.filed]

theorem Tidy.collect {heap : Heap} (tidy : heap.Tidy) (roots : List ObjectId) :
    (heap.collect roots).Tidy := by
  rw [collect_eq_swept]
  exact tidy.swept _

theorem Tidy.prepared {heap : Heap} (tidy : heap.Tidy) (roots : Unit → List ObjectId)
    (bytes : UInt64) : (heap.prepared roots bytes).Tidy := by
  unfold Heap.prepared
  split
  · exact tidy.collect (roots ())
  · exact tidy

theorem Tidy.link {heap : Heap} (tidy : heap.Tidy) {object : Object}
    (plain : ∀ text, object ≠ .string text) : (heap.link object).Tidy where
  bounded := by
    intro id found present
    change id < heap.nextId + 1
    rw [get?_link] at present
    split at present
    · next same => lia
    · exact Nat.lt_succ_of_lt (tidy.bounded present)
  filed := by
    intro text id
    change heap.interned[text]? = some id ↔ _
    rw [tidy.filed, get?_link]
    split
    · next same =>
      rw [← same, tidy.absent]
      simp [plain text]
    · exact Iff.rfl

/-- The heap with a new string in it and in the table of interned strings. -/
def file (heap : Heap) (text : Text) : Heap :=
  { heap.link (.string text) with
    interned := (heap.link (.string text)).interned.insert text heap.nextId }

@[simp] theorem get?_file (heap : Heap) (text : Text) (id : ObjectId) :
    (heap.file text).get? id
      = if heap.nextId = id then some (.string text) else heap.get? id :=
  get?_link heap _ id

/-- Filing a new string keeps the table in order, when its text has not been filed. -/
theorem Tidy.intern {heap : Heap} (tidy : heap.Tidy) {text : Text}
    (new : heap.interned[text]? = none) : (heap.file text).Tidy where
  bounded := by
    intro id found present
    change id < heap.nextId + 1
    have linked : (heap.link (.string text)).get? id = some found := present
    rw [get?_link] at linked
    split at linked
    · next same => lia
    · exact Nat.lt_succ_of_lt (tidy.bounded linked)
  filed := by
    intro other id
    change (heap.interned.insert text heap.nextId)[other]? = some id ↔
      (heap.link (.string text)).get? id = some (.string other)
    rw [Std.HashMap.getElem?_insert, get?_link]
    by_cases sameText : text = other
    · subst sameText
      by_cases sameId : heap.nextId = id
      · simp [sameId]
      · have missing : heap.get? id ≠ some (.string text) := by
          rw [Ne, ← tidy.filed, new]
          simp
        simp [sameId, missing]
    · by_cases sameId : heap.nextId = id
      · have missing : heap.interned[other]? ≠ some id := by
          rw [Ne, tidy.filed, ← sameId, tidy.absent]
          simp
        simp [sameText, sameId, missing]
      · simp [sameText, sameId, tidy.filed]

theorem Tidy.set {heap : Heap} (tidy : heap.Tidy) {id : ObjectId} {object : Object}
    (plain : ∀ text, object ≠ .string text) (before : ∀ text, heap.get? id ≠ some (.string text)) :
    (heap.set id object).Tidy where
  bounded := by
    intro other found present
    change other < heap.nextId
    rw [get?_set] at present
    split at present
    · cases old : heap.get? other with
      | none => simp [old] at present
      | some _ => exact tidy.bounded old
    · exact tidy.bounded present
  filed := by
    intro text other
    change heap.interned[text]? = some other ↔ _
    rw [tidy.filed, get?_set]
    split
    · next same =>
      subst same
      cases old : heap.get? id <;> simp_all
    · exact Iff.rfl

theorem Tidy.of_same {heap other : Heap} (tidy : heap.Tidy) (objects : other.objects = heap.objects)
    (next : other.nextId = heap.nextId) (interned : other.interned = heap.interned) :
    other.Tidy where
  bounded := by
    intro id object present
    rw [next]
    exact tidy.bounded (by rw [get?, objects] at present; exact present)
  filed := by
    intro text id
    rw [interned, get?, objects]
    exact tidy.filed

section Requests

variable {heap : Heap} {roots : Unit → List ObjectId}

theorem prepared_cases (heap : Heap) (roots : Unit → List ObjectId) (bytes : UInt64) :
    heap.prepared roots bytes = heap ∨ heap.prepared roots bytes = heap.collect (roots ()) := by
  unfold prepared
  split
  · exact Or.inr rfl
  · exact Or.inl rfl

@[simp] theorem prepared_nextId (heap : Heap) (roots : Unit → List ObjectId) (bytes : UInt64) :
    (heap.prepared roots bytes).nextId = heap.nextId := by
  rcases prepared_cases heap roots bytes with same | collected
  · rw [same]
  · rw [collected, collect_nextId]

@[simp] theorem prepared_config (heap : Heap) (roots : Unit → List ObjectId) (bytes : UInt64) :
    (heap.prepared roots bytes).config = heap.config := by
  rcases prepared_cases heap roots bytes with same | collected
  · rw [same]
  · rw [collected, collect_config]

/-- What is reached from the roots of a request is as it was. -/
theorem get?_prepared_of_reaches {bytes : UInt64} {id : ObjectId}
    (reached : Reaches heap.objects (roots ()) id) :
    (heap.prepared roots bytes).get? id = heap.get? id := by
  rcases prepared_cases heap roots bytes with same | collected
  · rw [same]
  · rw [collected, get?_collect_of_reaches reached]

theorem get?_of_prepared {bytes : UInt64} {id : ObjectId} {object : Object}
    (present : (heap.prepared roots bytes).get? id = some object) : heap.get? id = some object := by
  rcases prepared_cases heap roots bytes with same | collected
  · rwa [same] at present
  · rw [collected] at present
    exact (get?_collect.mp present).1

theorem overLimit_limited {bytes : UInt64} (full : heap.overLimit bytes = true) :
    heap.config.limit ≠ 0 := by
  simp only [overLimit, Bool.and_eq_true, bne_iff_ne] at full
  exact full.1

theorem makeRoom_eq (roots : Unit → List ObjectId) (bytes : UInt64) (heap : Heap) :
    makeRoom roots bytes heap =
      if (heap.prepared roots bytes).overLimit bytes then
        .error ⟨bytes, (heap.prepared roots bytes).config.limit⟩ (heap.prepared roots bytes)
      else .ok () (heap.prepared roots bytes) := rfl

theorem allocate_eq (roots : Unit → List ObjectId) (object : Object) (heap : Heap) :
    allocate roots object heap =
      let ready := heap.prepared roots object.size.toUInt64
      if ready.overLimit object.size.toUInt64 then
        .error ⟨object.size.toUInt64, ready.config.limit⟩ ready
      else .ok ready.nextId (ready.link object) := by
  simp only [allocate, bind, EStateM.bind, makeRoom_eq]
  by_cases full : (heap.prepared roots object.size.toUInt64).overLimit object.size.toUInt64 = true
  · simp only [full, ↓reduceIte]
  · simp only [full, Bool.false_eq_true, ↓reduceIte]
    rfl

theorem reserve_eq (roots : Unit → List ObjectId) (bytes : UInt64) (heap : Heap) :
    reserve roots bytes heap =
      let ready := heap.prepared roots bytes
      if ready.overLimit bytes then .error ⟨bytes, ready.config.limit⟩ ready
      else .ok () { ready with bytes := ready.bytes + bytes } := by
  simp only [reserve, bind, EStateM.bind, makeRoom_eq]
  by_cases full : (heap.prepared roots bytes).overLimit bytes = true
  · simp only [full, ↓reduceIte]
  · simp only [full, Bool.false_eq_true, ↓reduceIte]
    rfl

theorem newClosure_eq {id : ObjectId} {body : Prototype} (roots : Unit → List ObjectId)
    (here : heap.prototype? id = some body) :
    newClosure roots id heap
      = allocate roots (.closure id (Array.replicate body.captures.size none)) heap := by
  have opened : newClosure roots id heap
      = allocate roots (.closure id (Array.replicate
          (((heap.prototype? id).map fun body => body.captures.size).getD 0) none)) heap := rfl
  rw [opened, here]
  rfl

theorem intern_eq (roots : Unit → List ObjectId) (text : Text) (heap : Heap) :
    intern roots text heap =
      (match heap.interned[text]? with
        | some id => return id
        | none => do
          let id ← allocate roots (.string text)
          modify fun heap => { heap with interned := heap.interned.insert text id }
          return id : Action ObjectId) heap := rfl

theorem intern_of_filed {text : Text} {id : ObjectId} (roots : Unit → List ObjectId)
    (filed : heap.interned[text]? = some id) : intern roots text heap = .ok id heap := by
  rw [intern_eq, filed]
  rfl

theorem intern_of_unfiled {text : Text} (roots : Unit → List ObjectId)
    (unfiled : heap.interned[text]? = none) :
    intern roots text heap =
      let ready := heap.prepared roots (Object.string text).size.toUInt64
      if ready.overLimit (Object.string text).size.toUInt64 then
        .error ⟨(Object.string text).size.toUInt64, ready.config.limit⟩ ready
      else .ok ready.nextId (ready.file text) := by
  rw [intern_eq, unfiled]
  simp only [bind, EStateM.bind, allocate_eq]
  by_cases full : (heap.prepared roots (Object.string text).size.toUInt64).overLimit
      (Object.string text).size.toUInt64 = true
  · simp only [full, ↓reduceIte]
  · simp only [full, Bool.false_eq_true, ↓reduceIte]
    rfl

theorem prepared_unfiled {text : Text} (roots : Unit → List ObjectId)
    (unfiled : heap.interned[text]? = none) (bytes : UInt64) :
    (heap.prepared roots bytes).interned[text]? = none := by
  rcases prepared_cases heap roots bytes with same | collected
  · rw [same, unfiled]
  · rw [collected]
    cases after : (heap.collect (roots ())).interned[text]? with
    | none => rfl
    | some id =>
      rw [(interned_collect.mp after).1] at unfiled
      cases unfiled

/-- Without a limit every request is granted. -/
theorem overLimit_unlimited (unlimited : heap.config.limit = 0) (bytes : UInt64) :
    heap.overLimit bytes = false := by
  cases full : heap.overLimit bytes with
  | false => rfl
  | true => exact absurd unlimited (overLimit_limited full)

theorem allocate_unlimited (roots : Unit → List ObjectId) (object : Object)
    (unlimited : heap.config.limit = 0) :
    ∃ id after, allocate roots object heap = .ok id after ∧ after.config = heap.config := by
  have room : (heap.prepared roots object.size.toUInt64).overLimit object.size.toUInt64 = false :=
    overLimit_unlimited (by rw [prepared_config, unlimited]) _
  refine ⟨(heap.prepared roots object.size.toUInt64).nextId,
    (heap.prepared roots object.size.toUInt64).link object, ?_, prepared_config heap roots _⟩
  rw [allocate_eq]
  simp only [room, Bool.false_eq_true, ↓reduceIte]

theorem intern_unlimited (roots : Unit → List ObjectId) (text : Text)
    (unlimited : heap.config.limit = 0) :
    ∃ id after, intern roots text heap = .ok id after ∧ after.config = heap.config := by
  cases filed : heap.interned[text]? with
  | some id => exact ⟨id, heap, intern_of_filed roots filed, rfl⟩
  | none =>
    obtain ⟨id, after, allocated, same⟩ := allocate_unlimited roots (.string text) unlimited
    refine ⟨id, { after with interned := after.interned.insert text id }, ?_, same⟩
    rw [intern_eq, filed]
    simp only [bind, EStateM.bind, allocated]
    rfl

end Requests

end ScriptMachine.Heap
