import ScriptMachine.Proofs.Heap.Plain
import ScriptMachine.Proofs.Machine.Data
import ScriptMachine.Proofs.Twins.Structs
import ScriptMachine.Value.Render

set_option autoImplicit false

/- Twins look the same: they are written as the same text and they are equal to twins of the same
values. Both go through the objects a value leads to, so all of those have to be there. -/
namespace ScriptMachine

/-- The pairs among the live objects of two heaps. -/
def Pairing.among (pairs : Pairing) (live live' : ObjectId → Prop) : Pairing :=
  fun a b => pairs a b ∧ live a ∧ live' b

/-- Each object on one side stands for at most one on the other. -/
def Pairing.Faithful (pairs : Pairing) : Prop :=
  ∀ {a b a' b' : ObjectId}, pairs a b → pairs a' b' → (a = a' ↔ b = b')

section Confining

variable {pairs : Pairing} {live live' : ObjectId → Prop}

theorem Value.Twin.among {value value' : Value} (twin : value.Twin pairs value')
    (inside : ∀ id, value.object? = some id → live id)
    (inside' : ∀ id, value'.object? = some id → live' id) :
    value.Twin (pairs.among live live') value' := by
  cases twin with
  | ref paired => exact .ref ⟨paired, inside _ rfl, inside' _ rfl⟩
  | nil => exact .nil
  | bool value => exact .bool value
  | number value => exact .number value
  | stack node => exact .stack node

theorem Value.Kept.object {value : Value} (kept : value.Kept live) (id : ObjectId)
    (isObject : value.object? = some id) : live id := by
  cases value with
  | ref _ =>
    cases isObject
    exact kept
  | nil | bool _ | number _ | stack _ => cases isObject

theorem Value.Kept.plain {value : Value} (kept : value.Kept live) : value.Plain := by
  cases value with
  | stack _ => exact kept.elim
  | nil | bool _ | number _ | ref _ => rfl

theorem Object.Twin.among {object other : Object} (twin : object.Twin pairs other)
    (inside : ∀ id ∈ object.references, live id) (inside' : ∀ id ∈ other.references, live' id) :
    object.Twin (pairs.among live live') other := by
  cases twin with
  | string text => exact .string text
  | @function body body' same =>
    refine .function ⟨?_, ⟨same.constants.size, fun here there => ?_⟩, same.rest⟩
    · have name := same.name
      simp only [Object.references, Prototype.references, List.mem_append, Option.mem_toList]
        at inside inside'
      generalize body.name = one at name inside
      generalize body'.name = other at name inside'
      cases name with
      | some paired => exact .some ⟨paired, inside _ (Or.inl rfl), inside' _ (Or.inl rfl)⟩
      | none => exact .none
    · refine (same.constants.each here there).among (fun id isObject => inside id ?_)
        fun id isObject => inside' id ?_
      · exact List.mem_append_right _ (List.mem_filterMap.mpr
          ⟨_, Array.mem_toList_iff.mpr (Array.mem_of_getElem? here), isObject⟩)
      · exact List.mem_append_right _ (List.mem_filterMap.mpr
          ⟨_, Array.mem_toList_iff.mpr (Array.mem_of_getElem? there), isObject⟩)
  | closure paired upvalues =>
    refine .closure ⟨paired, inside _ List.mem_cons_self, inside' _ List.mem_cons_self⟩
      ⟨upvalues.size, fun {index one other} here there => ?_⟩
    have same := upvalues.each here there
    cases same with
    | some paired =>
      refine .some ⟨paired, inside _ (List.mem_cons_of_mem _ ?_), inside' _ (List.mem_cons_of_mem _ ?_)⟩
      · exact List.mem_filterMap.mpr ⟨_, Array.mem_toList_iff.mpr (Array.mem_of_getElem? here), rfl⟩
      · exact List.mem_filterMap.mpr ⟨_, Array.mem_toList_iff.mpr (Array.mem_of_getElem? there), rfl⟩
    | none => exact .none
  | onStack slot => exact .onStack slot
  | closed same =>
    exact .closed (same.among (fun id isObject => inside id (by simp [Object.references, isObject]))
      fun id isObject => inside' id (by simp [Object.references, isObject]))
  | record type fields =>
    refine .record type ⟨fields.size, fun here there => ?_⟩
    refine (fields.each here there).among (fun id isObject => inside id ?_)
      fun id isObject => inside' id ?_
    · exact List.mem_filterMap.mpr
        ⟨_, Array.mem_toList_iff.mpr (Array.mem_of_getElem? here), isObject⟩
    · exact List.mem_filterMap.mpr
        ⟨_, Array.mem_toList_iff.mpr (Array.mem_of_getElem? there), isObject⟩
  | native native => exact .native native

mutual

theorem StackStruct.Twin.among {sized : StructId → Nat → Prop} : (struct : StackStruct) →
    {struct' : StackStruct} → struct.Twin pairs struct' → struct.Fits (Value.Kept live) sized →
    struct'.Fits (Value.Kept live') sized → struct.Twin (pairs.among live live') struct'
  | .node _ _ slots _, .node _ _ _ _, twin, fits, fits' =>
    ⟨twin.1, twin.2.1, StackStruct.TwinSlots.among slots twin.2.2 fits.2 fits'.2⟩

theorem StackStruct.TwinSlots.among {sized : StructId → Nat → Prop} : (slots : List Slot) →
    {slots' : List Slot} → StackStruct.TwinSlots pairs slots slots' →
    StackStruct.FitsSlots (Value.Kept live) sized slots →
    StackStruct.FitsSlots (Value.Kept live') sized slots' →
    StackStruct.TwinSlots (pairs.among live live') slots slots'
  | [], [], _, _, _ => trivial
  | .plain _ :: rest, .plain _ :: _, twin, fits, fits' =>
    ⟨twin.1.among fits.1.object fits'.1.object,
      StackStruct.TwinSlots.among rest twin.2 fits.2 fits'.2⟩
  | .nested inner :: rest, .nested _ :: _, twin, fits, fits' =>
    ⟨StackStruct.Twin.among inner twin.1 fits.1 fits'.1,
      StackStruct.TwinSlots.among rest twin.2 fits.2 fits'.2⟩
  | [], .plain _ :: _, twin, _, _ | [], .nested _ :: _, twin, _, _ | .plain _ :: _, [], twin, _, _
  | .nested _ :: _, [], twin, _, _ | .plain _ :: _, .nested _ :: _, twin, _, _
  | .nested _ :: _, .plain _ :: _, twin, _, _ => by simp [StackStruct.TwinSlots] at twin

end

end Confining

section Equality

variable {pairs : Pairing} {a b a' b' : Value}

theorem Value.Twin.identical (faithful : pairs.Faithful) (one : a.Twin pairs a')
    (two : b.Twin pairs b') : a'.identical b' = a.identical b := by
  cases one with
  | ref paired =>
    cases two with
    | ref paired' =>
      rw [Bool.eq_iff_iff]
      simp only [Value.identical, beq_iff_eq]
      exact (faithful paired paired').symm
    | nil | bool _ | number _ | stack _ => rfl
  | nil | bool _ | number _ | stack _ => cases two <;> rfl

mutual

theorem StackStruct.Twin.equal (faithful : pairs.Faithful) : (one : StackStruct) →
    {one' two two' : StackStruct} → one.Twin pairs one' → two.Twin pairs two' →
    one'.equal two' = one.equal two
  | .node _ _ slots _, .node _ _ slots' _, .node _ _ others _, .node _ _ others' _, twin, other => by
    obtain ⟨rfl, rfl, inside⟩ := twin
    obtain ⟨rfl, rfl, inside'⟩ := other
    have same : StackStruct.equalSlots slots' others' = StackStruct.equalSlots slots others :=
      StackStruct.TwinSlots.equal faithful slots inside inside'
    simp only [StackStruct.equal, StackStruct.slots, same]
    rfl

theorem StackStruct.TwinSlots.equal (faithful : pairs.Faithful) : (slots : List Slot) →
    {slots' others others' : List Slot} → StackStruct.TwinSlots pairs slots slots' →
    StackStruct.TwinSlots pairs others others' →
    StackStruct.equalSlots slots' others' = StackStruct.equalSlots slots others
  | [], [], [], [], _, _ => rfl
  | [], [], _ :: _, _ :: _, _, _ => by simp [StackStruct.equalSlots]
  | .plain _ :: rest, .plain _ :: _, [], [], _, _ => by simp [StackStruct.equalSlots]
  | .nested _ :: rest, .nested _ :: _, [], [], _, _ => by simp [StackStruct.equalSlots]
  | .plain _ :: rest, .plain _ :: _, .plain _ :: _, .plain _ :: _, twin, other => by
    simp only [StackStruct.equalSlots]
    rw [twin.1.identical faithful other.1, StackStruct.TwinSlots.equal faithful rest twin.2 other.2]
  | .nested inner :: rest, .nested _ :: _, .nested _ :: _, .nested _ :: _, twin, other => by
    simp only [StackStruct.equalSlots]
    rw [StackStruct.Twin.equal faithful inner twin.1 other.1,
      StackStruct.TwinSlots.equal faithful rest twin.2 other.2]
  | .plain _ :: _, .plain _ :: _, .nested _ :: _, .nested _ :: _, _, _ => by
    simp [StackStruct.equalSlots]
  | .nested _ :: _, .nested _ :: _, .plain _ :: _, .plain _ :: _, _, _ => by
    simp [StackStruct.equalSlots]
  | [], .plain _ :: _, _, _, twin, _ | [], .nested _ :: _, _, _, twin, _
  | .plain _ :: _, [], _, _, twin, _ | .nested _ :: _, [], _, _, twin, _
  | .plain _ :: _, .nested _ :: _, _, _, twin, _ | .nested _ :: _, .plain _ :: _, _, _, twin, _ => by
    simp [StackStruct.TwinSlots] at twin
  | _, _, [], .plain _ :: _, _, twin | _, _, [], .nested _ :: _, _, twin
  | _, _, .plain _ :: _, [], _, twin | _, _, .nested _ :: _, [], _, twin
  | _, _, .plain _ :: _, .nested _ :: _, _, twin | _, _, .nested _ :: _, .plain _ :: _, _, twin => by
    simp [StackStruct.TwinSlots] at twin

end

end Equality

section Text

/-- The live objects are there, they refer to live ones only, and they hold no frame-owned structs. -/
structure Heap.Backs (heap : Heap) (live : ObjectId → Prop) : Prop where
  present : ∀ {id : ObjectId}, live id → ∃ object, heap.get? id = some object
  closed : ∀ {id other : ObjectId} {object : Object}, live id → heap.get? id = some object →
    other ∈ object.references → live other
  plain : ∀ {id : ObjectId} {object : Object}, live id → heap.get? id = some object → object.Plain

/-- Views of twins. Struct types have the same names and fields. -/
structure View.Twin (pairs : Pairing) (view view' : View) : Prop where
  heap : Heap.Twin pairs view.heap view'.heap
  names : ∀ id, (view'.structType id).name = (view.structType id).name
  fields : ∀ id, (view'.structType id).fields = (view.structType id).fields
  nodes : ∀ {node struct struct'}, view.node? node = some struct → view'.node? node = some struct' →
    struct.Twin pairs struct'

variable {pairs : Pairing} {live live' : ObjectId → Prop} {view view' : View}

theorem Heap.Twin.faithful {heap heap' : Heap} (twin : Heap.Twin pairs heap heap')
    (backs : heap.Backs live) (backs' : heap'.Backs live') : (pairs.among live live').Faithful := by
  intro a b a' b' one two
  have present := fun {id} (isLive : live id) => Option.isSome_iff_exists.mpr (backs.present isLive)
  have present' := fun {id} (isLive : live' id) =>
    Option.isSome_iff_exists.mpr (backs'.present isLive)
  exact twin.eq_iff one.1 two.1 (present one.2.1) (present two.2.1) (present' one.2.2)
    (present' two.2.2)

/-- Live twins are there on both sides, and so is all that they refer to. -/
theorem Heap.Twin.objects {heap heap' : Heap} (twin : Heap.Twin pairs heap heap')
    (backs : heap.Backs live) (backs' : heap'.Backs live') {a b : ObjectId}
    (paired : pairs.among live live' a b) :
    ∃ object other, heap.get? a = some object ∧ heap'.get? b = some other ∧
      object.Twin (pairs.among live live') other := by
  obtain ⟨object, here⟩ := backs.present paired.2.1
  obtain ⟨other, there⟩ := backs'.present paired.2.2
  exact ⟨object, other, here, there, (twin.alike paired.1 here there).among
    (fun id => backs.closed paired.2.1 here) fun id => backs'.closed paired.2.2 there⟩

mutual

theorem StackStruct.Twin.text (views : View.Twin pairs view view') {plainText plainText' : Value → Text}
    (same : ∀ value value' : Value, value.Twin (pairs.among live live') value' → value.Plain →
      plainText' value' = plainText value) : (struct : StackStruct) → {struct' : StackStruct} →
    struct.Twin (pairs.among live live') struct' → struct.Fits Value.Plain (fun _ _ => True) →
    struct'.text view' plainText' = struct.text view plainText
  | .node _ type slots _, .node _ _ slots' _, twin, plain => by
    obtain ⟨rfl, rfl, inside⟩ := twin
    have texts : slotTexts view' plainText' slots' = slotTexts view plainText slots :=
      StackStruct.TwinSlots.texts views same slots inside plain.2
    simp only [StackStruct.text, structText, texts, views.names, views.fields]

theorem StackStruct.TwinSlots.texts (views : View.Twin pairs view view')
    {plainText plainText' : Value → Text}
    (same : ∀ value value' : Value, value.Twin (pairs.among live live') value' → value.Plain →
      plainText' value' = plainText value) : (slots : List Slot) → {slots' : List Slot} →
    StackStruct.TwinSlots (pairs.among live live') slots slots' →
    StackStruct.FitsSlots Value.Plain (fun _ _ => True) slots →
    slotTexts view' plainText' slots' = slotTexts view plainText slots
  | [], [], _, _ => rfl
  | .plain _ :: rest, .plain _ :: _, twin, plain => by
    simp only [slotTexts, same _ _ twin.1 plain.1,
      StackStruct.TwinSlots.texts views same rest twin.2 plain.2]
  | .nested inner :: rest, .nested _ :: _, twin, plain => by
    simp only [slotTexts, StackStruct.Twin.text views same inner twin.1 plain.1,
      StackStruct.TwinSlots.texts views same rest twin.2 plain.2]
  | [], .plain _ :: _, twin, _ | [], .nested _ :: _, twin, _ | .plain _ :: _, [], twin, _
  | .nested _ :: _, [], twin, _ | .plain _ :: _, .nested _ :: _, twin, _
  | .nested _ :: _, .plain _ :: _, twin, _ => by simp [StackStruct.TwinSlots] at twin

end

namespace View

/-- A plain value and its twin are written alike when they are written to the same depth. -/
theorem Twin.textWithin (views : Twin pairs view view') (backs : view.heap.Backs live)
    (backs' : view'.heap.Backs live') (depth : Nat) {visiting visiting' : List ObjectId}
    (nested : Bool) {value value' : Value} (plain : value.Plain)
    (twin : value.Twin (pairs.among live live') value')
    (met : ∀ {a b}, pairs.among live live' a b → (a ∈ visiting ↔ b ∈ visiting')) :
    view'.textWithin depth visiting' nested value' = view.textWithin depth visiting nested value := by
  have faithful : (pairs.among live live').Faithful := views.heap.faithful backs backs'
  induction depth generalizing visiting visiting' nested value value' with
  | zero =>
    cases twin with
    | bool value => cases value <;> rfl
    | nil | number _ | ref _ | stack _ => rfl
  | succ depth ih =>
    cases twin with
    | bool value => cases value <;> rfl
    | nil | number _ => rfl
    | stack _ => cases plain
    | @ref a b paired =>
      obtain ⟨object, other, here, there, same⟩ := views.heap.objects backs backs' paired
      have plainObject := backs.plain paired.2.1 here
      have once : visiting'.contains b = visiting.contains a := by
        rw [Bool.eq_iff_iff, List.contains_iff_mem, List.contains_iff_mem]
        exact (met paired).symm
      have inner : ∀ {inside inside' : Value}, inside.Plain →
          inside.Twin (pairs.among live live') inside' →
          view'.textWithin depth (b :: visiting') true inside'
            = view.textWithin depth (a :: visiting) true inside := by
        intro inside inside' isPlain alike
        refine ih true isPlain alike fun {x y} joined => ?_
        rw [List.mem_cons, List.mem_cons, met joined, faithful joined paired]
      have code : ∀ {one two : ObjectId}, pairs.among live live' one two →
          view'.functionText two = view.functionText one := by
        intro one two joined
        obtain ⟨first, second, isFirst, isSecond, alike⟩ := views.heap.objects backs backs' joined
        simp only [functionText, Heap.prototype?, isFirst, isSecond]
        cases alike with
        | @function body body' alike =>
          have name := alike.name
          obtain ⟨_, _, _, _, _, _, _, _⟩ := body
          obtain ⟨_, _, _, _, _, _, _, _⟩ := body'
          dsimp only at name ⊢
          cases name with
          | none => rfl
          | some named =>
            obtain ⟨_, _, isName, isName', sameName⟩ := views.heap.objects backs backs' named
            simp only [Heap.string?, isName, isName']
            cases sameName <;> rfl
        | string _ | closure _ _ | onStack _ | closed _ | record _ _ | native _ => rfl
      have values : ∀ {fields fields' : Array Value}, Across (Value.Twin (pairs.among live live'))
          fields fields' → (∀ field ∈ fields, field.Plain) →
          fields'.toList.map (view'.textWithin depth (b :: visiting') true)
            = fields.toList.map (view.textWithin depth (a :: visiting) true) := by
        intro fields fields' across isPlain
        have related := across.toList
        have isPlain : ∀ field ∈ fields.toList, field.Plain :=
          fun field member => isPlain field (Array.mem_toList_iff.mp member)
        generalize fields.toList = left at related isPlain
        generalize fields'.toList = right at related
        induction related with
        | nil => rfl
        | cons first _ rest =>
          rw [List.map_cons, List.map_cons, inner (isPlain _ List.mem_cons_self) first,
            rest fun field member => isPlain field (List.mem_cons_of_mem _ member)]
      simp only [View.textWithin, here, there]
      cases same with
      | string text => rfl
      | function body => simp only [once, elidedText, objectText, code paired]
      | closure prototype _ => simp only [once, elidedText, objectText, code prototype]
      | onStack slot => simp only [once, elidedText, objectText]
      | closed alike => simp only [once, elidedText, objectText, inner plainObject alike]
      | record type alike =>
        simp only [once, elidedText, objectText, structText, values alike plainObject, views.names,
          views.fields]
      | native native => simp only [once, elidedText, objectText]

/-- How many objects are not being written. -/
def unvisited (view : View) (visiting : List ObjectId) : Nat :=
  view.heap.objects.keys.countP fun id => !visiting.contains id

theorem unvisited_cons {id : ObjectId} {object : Object} {visiting : List ObjectId}
    (here : view.heap.get? id = some object) (new : id ∉ visiting) :
    view.unvisited (id :: visiting) < view.unvisited visiting := by
  have present : id ∈ view.heap.objects.keys := by
    rw [Std.TreeMap.mem_keys, Std.TreeMap.mem_iff_isSome_getElem?]
    change (view.heap.get? id).isSome = true
    rw [here]
    rfl
  refine Heap.countP_lt present ?_ ?_ ?_
  · intro other
    simp only [List.contains_cons, Bool.not_eq_true', Bool.or_eq_false_iff]
    exact fun apart => apart.2
  · simpa using new
  · simp

/-- How deep a plain value is written does not matter once every object can be entered. -/
theorem textWithin_deep (backs : view.heap.Backs live) (depth : Nat) {depth' : Nat}
    {visiting : List ObjectId} (nested : Bool) {value : Value} (kept : value.Kept live)
    (deep : view.unvisited visiting < depth) (deep' : view.unvisited visiting < depth') :
    view.textWithin depth visiting nested value = view.textWithin depth' visiting nested value := by
  induction depth generalizing depth' visiting nested value with
  | zero => cases deep
  | succ depth ih =>
    cases depth' with
    | zero => cases deep'
    | succ depth' =>
      cases value with
      | nil | number _ => rfl
      | bool value => cases value <;> rfl
      | stack _ => exact kept.elim
      | ref id =>
        obtain ⟨object, here⟩ := backs.present kept
        have inner : id ∉ visiting → ∀ {inside : Value}, inside.Kept live →
            view.textWithin depth (id :: visiting) true inside
              = view.textWithin depth' (id :: visiting) true inside := by
          intro new inside isKept
          have fewer := unvisited_cons here new
          exact ih true isKept (by omega) (by omega)
        have keptIn : ∀ inside : Value, inside.Plain →
            (∀ other, inside.object? = some other → other ∈ object.references) →
            inside.Kept live := by
          intro inside isPlain among
          cases inside with
          | ref other => exact backs.closed kept here (among other rfl)
          | stack _ => cases isPlain
          | nil | bool _ | number _ => trivial
        cases object with
        | string _ => simp only [View.textWithin, here]
        | function _ | closure _ _ | native _ => simp only [View.textWithin, here, objectText]
        | cell contents =>
          cases contents with
          | onStack _ => simp only [View.textWithin, here]; rfl
          | closed value =>
            simp only [View.textWithin, here]
            split
            · rfl
            · next new =>
              have isKept : value.Kept live := keptIn value (backs.plain kept here) fun other isObject => by
                simp [Object.references, isObject]
              simp only [objectText]
              rw [inner (by simpa using new) isKept]
        | record type fields =>
          simp only [View.textWithin, here]
          split
          · rfl
          · next new =>
            have same : fields.toList.map (view.textWithin depth (id :: visiting) true)
                = fields.toList.map (view.textWithin depth' (id :: visiting) true) := by
              refine List.map_congr_left fun field member => inner (by simpa using new) ?_
              refine keptIn field (backs.plain kept here field (Array.mem_toList_iff.mp member))
                fun other isObject => ?_
              exact List.mem_filterMap.mpr ⟨field, member, isObject⟩
            simp only [objectText, same]

theorem unvisited_le (view : View) (visiting : List ObjectId) :
    view.unvisited visiting ≤ view.heap.objectCount := by
  refine Nat.le_trans List.countP_le_length ?_
  rw [Std.TreeMap.length_keys]
  exact Nat.le_refl _

/-- A value that a view can look into: its object is live, or its struct is there with live contents. -/
def Shows (view : View) (live : ObjectId → Prop) : Value → Prop
  | .stack node => ∃ struct, view.node? node = some struct ∧
      struct.Fits (Value.Kept live) fun _ _ => True
  | value => value.Kept live

theorem Shows.kept {value : Value} (shows : view.Shows live value) (plain : value.Plain) :
    value.Kept live := by
  cases value with
  | stack _ => cases plain
  | nil | bool _ | number _ | ref _ => exact shows

/-- Twins are written alike. -/
theorem Twin.text (views : Twin pairs view view') (backs : view.heap.Backs live)
    (backs' : view'.heap.Backs live') {value value' : Value} (twin : value.Twin pairs value')
    (shows : view.Shows live value) (shows' : view'.Shows live' value') :
    view'.text value' = view.text value := by
  -- to the depth of the larger heap, neither view runs out
  let depth := max view.heap.objectCount view'.heap.objectCount + 1
  have deep : ∀ {nested : Bool} {inside : Value} {given : Nat}, inside.Kept live →
      view.heap.objectCount < given →
      view.textWithin given [] nested inside = view.textWithin depth [] nested inside :=
    fun kept enough => textWithin_deep backs _ _ kept
      (Nat.lt_of_le_of_lt (view.unvisited_le []) enough)
      (Nat.lt_of_le_of_lt (view.unvisited_le []) (by omega))
  have deep' : ∀ {nested : Bool} {inside : Value} {given : Nat}, inside.Kept live' →
      view'.heap.objectCount < given →
      view'.textWithin given [] nested inside = view'.textWithin depth [] nested inside :=
    fun kept enough => textWithin_deep backs' _ _ kept
      (Nat.lt_of_le_of_lt (view'.unvisited_le []) enough)
      (Nat.lt_of_le_of_lt (view'.unvisited_le []) (by omega))
  have plainly : ∀ {nested : Bool} {inside inside' : Value} {given given' : Nat},
      inside.Twin pairs inside' → inside.Kept live → inside'.Kept live' →
      view.heap.objectCount < given → view'.heap.objectCount < given' →
      view'.textWithin given' [] nested inside' = view.textWithin given [] nested inside := by
    intro nested inside inside' given given' alike kept kept' enough enough'
    rw [deep kept enough, deep' kept' enough']
    exact views.textWithin backs backs' depth nested kept.plain
      (alike.among kept.object kept'.object) fun _ => by simp
  unfold View.text fullDepth
  cases twin with
  | stack node =>
    obtain ⟨struct, here, fits⟩ := shows
    obtain ⟨struct', there, fits'⟩ := shows'
    simp only [View.textWithin, here, there]
    refine StackStruct.Twin.text views (fun value value' alike isPlain => ?_) struct
      (StackStruct.Twin.among struct (views.nodes here there) fits fits')
      (StackStruct.Fits.mono (fun _ kept => Value.Kept.plain kept) struct fits)
    refine plainly (alike.mono fun _ _ joined => joined.1) ?_ ?_ (by omega) (by omega)
    · cases alike with
      | ref joined => exact joined.2.1
      | stack _ => cases isPlain
      | nil | bool _ | number _ => trivial
    · cases alike with
      | ref joined => exact joined.2.2
      | stack _ => cases isPlain
      | nil | bool _ | number _ => trivial
  | nil => exact plainly .nil shows shows' (by omega) (by omega)
  | bool value => exact plainly (.bool value) shows shows' (by omega) (by omega)
  | number value => exact plainly (.number value) shows shows' (by omega) (by omega)
  | ref paired => exact plainly (.ref paired) shows shows' (by omega) (by omega)

/-- Values are equal to each other just when their twins are. -/
theorem Twin.equal (views : Twin pairs view view') (backs : view.heap.Backs live)
    (backs' : view'.heap.Backs live') {a b a' b' : Value} (one : a.Twin pairs a')
    (two : b.Twin pairs b') (shows : view.Shows live a) (shows' : view'.Shows live' a')
    (shown : view.Shows live b) (shown' : view'.Shows live' b') :
    view'.equal a' b' = view.equal a b := by
  have faithful : (pairs.among live live').Faithful := views.heap.faithful backs backs'
  have inside : ∀ {value value' : Value}, value.Twin pairs value' → view.Shows live value →
      view'.Shows live' value' → value.Twin (pairs.among live live') value' := by
    intro value value' twin isShown isShown'
    cases twin with
    | stack node => exact .stack node
    | ref paired => exact .ref ⟨paired, isShown, isShown'⟩
    | nil => exact .nil
    | bool value => exact .bool value
    | number value => exact .number value
  have identical := (inside one shows shows').identical faithful (inside two shown shown')
  cases one with
  | stack node =>
    cases two with
    | stack other =>
      obtain ⟨left, here, fits⟩ := shows
      obtain ⟨left', there, fits'⟩ := shows'
      obtain ⟨right, isRight, fitting⟩ := shown
      obtain ⟨right', isRight', fitting'⟩ := shown'
      simp only [View.equal, here, there, isRight, isRight']
      exact StackStruct.Twin.equal faithful left
        (StackStruct.Twin.among left (views.nodes here there) fits fits')
        (StackStruct.Twin.among right (views.nodes isRight isRight') fitting fitting')
    | nil | bool _ | number _ | ref _ => exact identical
  | nil | bool _ | number _ | ref _ => cases two <;> exact identical

end View

end Text

end ScriptMachine
