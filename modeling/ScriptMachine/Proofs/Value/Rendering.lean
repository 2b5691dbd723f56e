import Mathlib.Data.Finset.Basic
import Mathlib.Logic.Relation
import ScriptMachine.Proofs.Machine.Confined
import ScriptMachine.Proofs.Twins.Views

set_option autoImplicit false

/- What printing does with an object graph. A printer that keeps one set of the objects it is in
the middle of comes to an end on every graph, leaves the set as it found it, and cuts an object
short just where the object is inside itself. So it is the path from the root that decides, not
what was printed before: a graph without cycles is written in full, once for each way to a part
that is shared. -/
namespace ScriptMachine

/-- The text of a value that names nothing. -/
def Value.text? : Value → Option Text
  | .nil => some (ascii "nil")
  | .bool value => some (if value then ascii "true" else ascii "false")
  | .number value => some (Number.render value)
  | .ref _ | .stack _ => none

/-- What is written inside an object. -/
def Object.parts : Object → List Slot
  | .cell (.closed value) => [.plain value]
  | .record _ fields => fields.toList.map .plain
  | .string _ | .function _ | .closure _ _ | .cell (.onStack _) | .native _ => []

/-- A value that is in one of the slots, or in a struct that is. -/
inductive Held (value : Value) : List Slot → Prop
  | here {slots : List Slot} : Held value (.plain value :: slots)
  | inner {struct : StackStruct} {slots : List Slot} :
    Held value struct.slots → Held value (.nested struct :: slots)
  | later {slot : Slot} {slots : List Slot} : Held value slots → Held value (slot :: slots)

theorem Held.plain {value : Value} {slots : List Slot} (held : Held value slots)
    (plain : StackStruct.PlainSlots slots) : value.Plain := by
  induction held with
  | here => exact plain.1
  | @inner struct _ _ ih =>
    cases struct
    exact ih plain.1.1
  | @later slot _ _ ih => cases slot <;> exact ih plain.2

/-- A frame-owned struct has other structs only nested in it, as its arena builds them. -/
def View.Grounded (view : View) : Prop :=
  ∀ (node : NodeId) (struct : StackStruct), view.node? node = some struct → struct.Plain

theorem Machine.Confined.grounded {machine : Machine} (confined : Machine.Confined machine) :
    machine.view.Grounded :=
  fun _ _ found => confined.node? found

namespace View

variable {view : View}

/-- The text of an object from the texts of its parts. -/
def composed (view : View) (id : ObjectId) (texts : List Text) : Object → Text
  | .cell (.closed _) => ascii "[UpvalueCell " ++ texts.flatten ++ ascii "]"
  | .record type _ => ascii "new " ++ structText (view.structType type) texts
  | object => view.objectText (fun _ => []) id object

section Printer

/- One step of the printer after another: `before` and `after` are the objects it is in the middle
of when it starts on a value and when it is done with it. -/
mutual

/-- The printer writes a value, with or without something around it. A string is written as it is
before the set is looked at; any other object is entered unless it is in the set, and is in the set
until all that is inside it is written. -/
inductive Prints (view : View) : (before : Finset ObjectId) → (nested : Bool) → Value → Text →
    (after : Finset ObjectId) → Prop
  | atom {before : Finset ObjectId} {nested : Bool} {value : Value} {text : Text} :
    value.text? = some text → Prints view before nested value text before
  | bare {before : Finset ObjectId} {id : ObjectId} {text : Text} :
    view.heap.string? id = some text → Prints view before false (.ref id) text before
  | quoted {before : Finset ObjectId} {id : ObjectId} {text : Text} :
    view.heap.string? id = some text →
    Prints view before true (.ref id) (Text.quoted text) before
  | short {before : Finset ObjectId} {nested : Bool} {id : ObjectId} {object : Object} :
    view.heap.get? id = some object → view.heap.string? id = none → id ∈ before →
    Prints view before nested (.ref id) (view.elidedText object) before
  | full {before after : Finset ObjectId} {nested : Bool} {id : ObjectId} {object : Object}
    {texts : List Text} :
    view.heap.get? id = some object → view.heap.string? id = none → id ∉ before →
    PrintsSlots view (insert id before) object.parts texts after →
    Prints view before nested (.ref id) (view.composed id texts object) (after.erase id)
  | struct {before after : Finset ObjectId} {nested : Bool} {node : NodeId} {struct : StackStruct}
    {texts : List Text} :
    view.node? node = some struct → PrintsSlots view before struct.slots texts after →
    Prints view before nested (.stack node) (structText (view.structType struct.type) texts) after
  | noObject {before : Finset ObjectId} {nested : Bool} {id : ObjectId} :
    view.heap.get? id = none → Prints view before nested (.ref id) [] before
  | noStruct {before : Finset ObjectId} {nested : Bool} {node : NodeId} :
    view.node? node = none → Prints view before nested (.stack node) [] before

/-- The printer writes what is inside something, from left to right. -/
inductive PrintsSlots (view : View) : (before : Finset ObjectId) → List Slot → List Text →
    (after : Finset ObjectId) → Prop
  | nil {before : Finset ObjectId} : PrintsSlots view before [] [] before
  | plain {before middle after : Finset ObjectId} {value : Value} {text : Text}
    {slots : List Slot} {texts : List Text} :
    Prints view before true value text middle → PrintsSlots view middle slots texts after →
    PrintsSlots view before (.plain value :: slots) (text :: texts) after
  | nested {before middle after : Finset ObjectId} {struct : StackStruct} {inside : List Text}
    {slots : List Slot} {texts : List Text} :
    PrintsSlots view before struct.slots inside middle →
    PrintsSlots view middle slots texts after →
    PrintsSlots view before (.nested struct :: slots)
      (structText (view.structType struct.type) inside :: texts) after

end

end Printer

section Writing

/- What is written where: `met` are the objects that are cut short, and `remember` adds the object
that is entered to them. -/
mutual

/-- A value is written as `text`, inside another one if `nested`. Only then does a string have
quotes. -/
inductive Written (view : View) (remember : ObjectId → List ObjectId → List ObjectId) :
    (met : List ObjectId) → (nested : Bool) → Value → Text → Prop
  | atom {met : List ObjectId} {nested : Bool} {value : Value} {text : Text} :
    value.text? = some text → Written view remember met nested value text
  | bare {met : List ObjectId} {id : ObjectId} {text : Text} :
    view.heap.string? id = some text → Written view remember met false (.ref id) text
  | quoted {met : List ObjectId} {id : ObjectId} {text : Text} :
    view.heap.string? id = some text →
    Written view remember met true (.ref id) (Text.quoted text)
  | short {met : List ObjectId} {nested : Bool} {id : ObjectId} {object : Object} :
    view.heap.get? id = some object → view.heap.string? id = none → id ∈ met →
    Written view remember met nested (.ref id) (view.elidedText object)
  | full {met : List ObjectId} {nested : Bool} {id : ObjectId} {object : Object}
    {texts : List Text} :
    view.heap.get? id = some object → view.heap.string? id = none → id ∉ met →
    WrittenSlots view remember (remember id met) object.parts texts →
    Written view remember met nested (.ref id) (view.composed id texts object)
  | struct {met : List ObjectId} {nested : Bool} {node : NodeId} {struct : StackStruct}
    {texts : List Text} :
    view.node? node = some struct → WrittenSlots view remember met struct.slots texts →
    Written view remember met nested (.stack node)
      (structText (view.structType struct.type) texts)
  | noObject {met : List ObjectId} {nested : Bool} {id : ObjectId} :
    view.heap.get? id = none → Written view remember met nested (.ref id) []
  | noStruct {met : List ObjectId} {nested : Bool} {node : NodeId} :
    view.node? node = none → Written view remember met nested (.stack node) []

/-- What is inside something is written as `texts`. -/
inductive WrittenSlots (view : View) (remember : ObjectId → List ObjectId → List ObjectId) :
    (met : List ObjectId) → List Slot → List Text → Prop
  | nil {met : List ObjectId} : WrittenSlots view remember met [] []
  | plain {met : List ObjectId} {value : Value} {text : Text} {slots : List Slot}
    {texts : List Text} :
    Written view remember met true value text → WrittenSlots view remember met slots texts →
    WrittenSlots view remember met (.plain value :: slots) (text :: texts)
  | nested {met : List ObjectId} {struct : StackStruct} {inside : List Text} {slots : List Slot}
    {texts : List Text} :
    WrittenSlots view remember met struct.slots inside →
    WrittenSlots view remember met slots texts →
    WrittenSlots view remember met (.nested struct :: slots)
      (structText (view.structType struct.type) inside :: texts)

end

/-- `text` cuts an object short just where it is inside itself: `path` leads from the root to the
value. -/
abbrev WrittenOn (view : View) (path : List ObjectId) (nested : Bool) (value : Value)
    (text : Text) : Prop :=
  Written view List.cons path nested value text

/-- `text` has everything that a value leads to written in full, wherever it occurs. -/
abbrev Unfolded (view : View) (nested : Bool) (value : Value) (text : Text) : Prop :=
  Written view (fun _ _ => []) [] nested value text

end Writing

section Unique

variable {remember : ObjectId → List ObjectId → List ObjectId}

mutual

theorem Written.unique {met : List ObjectId} {nested : Bool} {value : Value} {text text' : Text} :
    Written view remember met nested value text →
    Written view remember met nested value text' → text = text'
  | .atom isText, other => by
    cases other with
    | atom isText' => exact Option.some.inj (isText.symm.trans isText')
    | bare _ | quoted _ | short _ _ _ | full _ _ _ _ | struct _ _ | noObject _ | noStruct _ =>
      cases isText
  | .bare here, other => by
    cases other with
    | atom isText => cases isText
    | bare here' => exact Option.some.inj (here.symm.trans here')
    | short _ noString _ | full _ noString _ _ => cases here.symm.trans noString
    | noObject missing => simp [Heap.string?, missing] at here
  | .quoted here, other => by
    cases other with
    | atom isText => cases isText
    | quoted here' => rw [Option.some.inj (here.symm.trans here')]
    | short _ noString _ | full _ noString _ _ => cases here.symm.trans noString
    | noObject missing => simp [Heap.string?, missing] at here
  | .short here noString member, other => by
    cases other with
    | atom isText => cases isText
    | bare isString | quoted isString => cases isString.symm.trans noString
    | short here' _ _ => rw [Option.some.inj (here.symm.trans here')]
    | full _ _ new _ => exact (new member).elim
    | noObject missing => cases here.symm.trans missing
  | .full here noString new parts, other => by
    cases other with
    | atom isText => cases isText
    | bare isString | quoted isString => cases isString.symm.trans noString
    | short _ _ member => exact (new member).elim
    | full here' _ _ parts' =>
      cases Option.some.inj (here.symm.trans here')
      rw [parts.unique parts']
    | noObject missing => cases here.symm.trans missing
  | .struct here slots, other => by
    cases other with
    | atom isText => cases isText
    | struct here' slots' =>
      cases Option.some.inj (here.symm.trans here')
      rw [slots.unique slots']
    | noStruct missing => cases here.symm.trans missing
  | .noObject missing, other => by
    cases other with
    | atom isText => cases isText
    | bare here | quoted here => simp [Heap.string?, missing] at here
    | short here _ _ | full here _ _ _ => cases here.symm.trans missing
    | noObject _ => rfl
  | .noStruct missing, other => by
    cases other with
    | atom isText => cases isText
    | struct here _ => cases here.symm.trans missing
    | noStruct _ => rfl

theorem WrittenSlots.unique {met : List ObjectId} {slots : List Slot} {texts texts' : List Text} :
    WrittenSlots view remember met slots texts →
    WrittenSlots view remember met slots texts' → texts = texts'
  | .nil, .nil => rfl
  | .plain first rest, .plain first' rest' => by rw [first.unique first', rest.unique rest']
  | .nested inside rest, .nested inside' rest' => by
    rw [inside.unique inside', rest.unique rest']

end

end Unique

section Set

/- The set of the printer holds the path: what is inside an object is written with the object on
the path, and the set is the same again when the object leaves it. -/
mutual

theorem Written.prints {path : List ObjectId} {nested : Bool} {value : Value} {text : Text} :
    WrittenOn view path nested value text →
    Prints view path.toFinset nested value text path.toFinset
  | .atom isText => .atom isText
  | .bare here => .bare here
  | .quoted here => .quoted here
  | .short here noString member => .short here noString (List.mem_toFinset.mpr member)
  | @Written.full _ _ _ nested id _ _ here noString new parts => by
    have apart : id ∉ path.toFinset := fun member => new (List.mem_toFinset.mp member)
    have inside := parts.prints
    rw [List.toFinset_cons] at inside
    have run : Prints view path.toFinset nested (.ref id) _ _ :=
      .full here noString apart inside
    rwa [Finset.erase_insert apart] at run
  | .struct here slots => .struct here slots.prints
  | .noObject missing => .noObject missing
  | .noStruct missing => .noStruct missing

theorem WrittenSlots.prints {path : List ObjectId} {slots : List Slot} {texts : List Text} :
    WrittenSlots view List.cons path slots texts →
    PrintsSlots view path.toFinset slots texts path.toFinset
  | .nil => .nil
  | .plain first rest => .plain first.prints rest.prints
  | .nested inside rest => .nested inside.prints rest.prints

end

mutual

theorem Prints.written {before after : Finset ObjectId} {nested : Bool} {value : Value}
    {text : Text} {path : List ObjectId} (onPath : path.toFinset = before) :
    Prints view before nested value text after →
    after = before ∧ WrittenOn view path nested value text
  | .atom isText => ⟨rfl, .atom isText⟩
  | .bare here => ⟨rfl, .bare here⟩
  | .quoted here => ⟨rfl, .quoted here⟩
  | .short here noString member =>
    ⟨rfl, .short here noString (List.mem_toFinset.mp (onPath ▸ member))⟩
  | @Prints.full _ _ _ _ id _ _ here noString new parts => by
    have deeper : (id :: path).toFinset = insert id before := by rw [List.toFinset_cons, onPath]
    obtain ⟨same, inside⟩ := parts.written deeper
    refine ⟨?_, .full here noString (fun member => new ?_) inside⟩
    · rw [same, Finset.erase_insert new]
    · exact onPath ▸ List.mem_toFinset.mpr member
  | .struct here slots => by
    obtain ⟨same, inside⟩ := slots.written onPath
    exact ⟨same, .struct here inside⟩
  | .noObject missing => ⟨rfl, .noObject missing⟩
  | .noStruct missing => ⟨rfl, .noStruct missing⟩

theorem PrintsSlots.written {before after : Finset ObjectId} {slots : List Slot}
    {texts : List Text} {path : List ObjectId} (onPath : path.toFinset = before) :
    PrintsSlots view before slots texts after →
    after = before ∧ WrittenSlots view List.cons path slots texts
  | .nil => ⟨rfl, .nil⟩
  | .plain first rest => by
    obtain ⟨rfl, value⟩ := first.written onPath
    obtain ⟨same, others⟩ := rest.written onPath
    exact ⟨same, .plain value others⟩
  | .nested inside rest => by
    obtain ⟨rfl, struct⟩ := inside.written onPath
    obtain ⟨same, others⟩ := rest.written onPath
    exact ⟨same, .nested struct others⟩

end

end Set

section Depth

/- The depth that printing is given never runs out: each object on the path takes one, and so does
the struct between two of them. -/

theorem slotTexts_plain (plainText : Value → Text) (values : List Value) :
    slotTexts view plainText (values.map .plain) = values.map plainText := by
  induction values with
  | nil => rfl
  | cons value rest ih => rw [List.map_cons, slotTexts, ih, List.map_cons]

theorem objectText_eq (valueText : Value → Text) (id : ObjectId) (object : Object) :
    view.objectText valueText id object
      = view.composed id (slotTexts view valueText object.parts) object := by
  cases object with
  | cell contents =>
    cases contents with
    | closed value => simp [objectText, composed, Object.parts, slotTexts]
    | onStack slot => rfl
  | record type fields => rw [composed, Object.parts, slotTexts_plain, objectText]
  | string _ | function _ | closure _ _ | native _ => rfl

theorem textWithin_object {id : ObjectId} {object : Object} (here : view.heap.get? id = some object)
    (noString : view.heap.string? id = none) (depth : Nat) (path : List ObjectId) (nested : Bool) :
    view.textWithin (depth + 1) path nested (.ref id)
      = if id ∈ path then view.elidedText object
        else view.objectText (view.textWithin depth (id :: path) true) id object := by
  simp only [← List.contains_iff_mem]
  cases object with
  | string _ => simp [Heap.string?, here] at noString
  | function _ | closure _ _ | cell _ | record _ _ | native _ => simp only [View.textWithin, here]

mutual

theorem writtenSlots_of_held {path : List ObjectId} {plainText : Value → Text} :
    (slots : List Slot) →
    (∀ value, Held value slots → WrittenOn view path true value (plainText value)) →
    WrittenSlots view List.cons path slots (slotTexts view plainText slots)
  | [], _ => .nil
  | .plain value :: rest, written =>
    .plain (written value .here)
      (writtenSlots_of_held rest fun value held => written value held.later)
  | .nested struct :: rest, written => by
    have inside := written_of_held struct fun value held =>
      written value held.inner
    have others := writtenSlots_of_held rest fun value held => written value held.later
    have both := WrittenSlots.nested inside others
    cases struct
    exact both

theorem written_of_held {path : List ObjectId} {plainText : Value → Text} :
    (struct : StackStruct) →
    (∀ value, Held value struct.slots → WrittenOn view path true value (plainText value)) →
    WrittenSlots view List.cons path struct.slots (slotTexts view plainText struct.slots)
  | .node _ _ slots _, written => writtenSlots_of_held slots written

end

/-- The depth that a value needs when the objects on the path are being written. -/
def depthFor (view : View) (path : List ObjectId) (value : Value) : Nat :=
  2 * view.unvisited path + if value.node?.isSome then 2 else 1

theorem depthFor_plain (path : List ObjectId) {value : Value} (plain : value.Plain) :
    view.depthFor path value = 2 * view.unvisited path + 1 := by
  rw [depthFor, show value.node? = none from plain]
  rfl

theorem depthFor_le (view : View) (path : List ObjectId) (value : Value) :
    view.depthFor path value ≤ 2 * view.unvisited path + 2 := by
  unfold depthFor
  split <;> omega

theorem Written.textWithin (grounded : view.Grounded) (depth : Nat) {path : List ObjectId}
    (nested : Bool) {value : Value} (deep : view.depthFor path value ≤ depth) :
    WrittenOn view path nested value (view.textWithin depth path nested value) := by
  induction depth generalizing path nested value with
  | zero =>
    unfold depthFor at deep
    split at deep <;> omega
  | succ depth ih =>
    cases value with
    | nil | number _ => exact .atom rfl
    | bool value => cases value <;> exact .atom rfl
    | stack node =>
      cases found : view.node? node with
      | none =>
        simp only [View.textWithin, found]
        exact .noStruct found
      | some struct =>
        have inside : WrittenSlots view List.cons path struct.slots
            (slotTexts view (view.textWithin depth path true) struct.slots) := by
          refine written_of_held struct fun value held => ih true ?_
          have plain : value.Plain := by
            have isPlain := grounded node struct found
            cases struct
            exact held.plain isPlain.1
          have needed : view.depthFor path (.stack node) = 2 * view.unvisited path + 2 := rfl
          rw [depthFor_plain path plain]
          omega
        have whole : WrittenOn view path nested (.stack node) _ := .struct found inside
        simp only [View.textWithin, found]
        cases struct
        exact whole
    | ref id =>
      cases found : view.heap.get? id with
      | none =>
        simp only [View.textWithin, found]
        exact .noObject found
      | some object =>
        cases isString : view.heap.string? id with
        | some text =>
          obtain rfl : object = .string text := by
            cases object <;> simp [Heap.string?, found] at isString
            rw [isString]
          simp only [View.textWithin, found]
          cases nested with
          | true => exact .quoted isString
          | false => exact .bare isString
        | none =>
          rw [textWithin_object found isString]
          split
          · next member => exact .short found isString member
          · next new =>
            rw [objectText_eq]
            refine .full found isString new (writtenSlots_of_held _ fun value held => ih true ?_)
            have fewer := unvisited_cons found new
            have enough := view.depthFor_le (id :: path) value
            rw [depthFor_plain path (show (Value.ref id).Plain from rfl)] at deep
            omega

theorem Written.text (grounded : view.Grounded) (value : Value) :
    WrittenOn view [] false value (view.text value) := by
  refine Written.textWithin grounded _ false ?_
  have bounded := view.unvisited_le []
  have enough := view.depthFor_le [] value
  unfold fullDepth
  omega

end Depth

section Cycles

/-- What is written inside a value. -/
def parts (view : View) : Value → List Slot
  | .ref id => ((view.heap.get? id).map Object.parts).getD []
  | .stack node => ((view.node? node).map StackStruct.slots).getD []
  | .nil | .bool _ | .number _ => []

/-- One value is written inside another, with no other object between them. -/
def Inside (view : View) (inner outer : Value) : Prop :=
  Held inner (view.parts outer)

/-- No object that a value leads to leads to itself. -/
def Acyclic (view : View) (value : Value) : Prop :=
  ∀ id : ObjectId, Relation.ReflTransGen view.Inside (.ref id) value →
    ¬ Relation.TransGen view.Inside (.ref id) (.ref id)

theorem Acyclic.inner {inner outer : Value} (acyclic : view.Acyclic outer)
    (inside : view.Inside inner outer) : view.Acyclic inner :=
  fun id leads => acyclic id (leads.tail inside)

mutual

/-- On a path that never comes back, nothing is cut short. -/
theorem Written.unfold {path : List ObjectId} {nested : Bool} {value : Value} {text : Text}
    (under : ∀ id ∈ path, Relation.TransGen view.Inside value (.ref id))
    (acyclic : view.Acyclic value) :
    WrittenOn view path nested value text → Unfolded view nested value text
  | .atom isText => .atom isText
  | .bare here => .bare here
  | .quoted here => .quoted here
  | .short _ _ member => (acyclic _ .refl (under _ member)).elim
  | @Written.full _ _ _ _ id _ _ here noString _ parts => by
    refine .full here noString List.not_mem_nil (parts.unfold fun inner held => ?_)
    have inside : view.Inside inner (.ref id) := by
      rw [Inside, View.parts, here]
      exact held
    refine ⟨fun other member => ?_, acyclic.inner inside⟩
    rcases List.mem_cons.mp member with rfl | member
    · exact .single inside
    · exact .head inside (under other member)
  | @Written.struct _ _ _ _ node _ _ here slots => by
    refine .struct here (slots.unfold fun inner held => ?_)
    have inside : view.Inside inner (.stack node) := by
      rw [Inside, View.parts, here]
      exact held
    exact ⟨fun other member => .head inside (under other member), acyclic.inner inside⟩
  | .noObject missing => .noObject missing
  | .noStruct missing => .noStruct missing

theorem WrittenSlots.unfold {path : List ObjectId} {slots : List Slot} {texts : List Text}
    (each : ∀ value, Held value slots →
      (∀ id ∈ path, Relation.TransGen view.Inside value (.ref id)) ∧ view.Acyclic value) :
    WrittenSlots view List.cons path slots texts →
    WrittenSlots view (fun _ _ => []) [] slots texts
  | .nil => .nil
  | .plain first rest =>
    have fits := each _ .here
    .plain (first.unfold fits.1 fits.2) (rest.unfold fun value held => each value held.later)
  | .nested inside rest =>
    .nested (inside.unfold fun value held => each value held.inner)
      (rest.unfold fun value held => each value held.later)

end

theorem accessible_string {id : ObjectId} {text : Text}
    (isString : view.heap.string? id = some text) : Acc view.Inside (.ref id) := by
  refine ⟨_, fun inner inside => ?_⟩
  rw [Inside, View.parts] at inside
  rw [Heap.string?] at isString
  split at isString
  · next here =>
    rw [here] at inside
    cases inside
  · cases isString

mutual

/-- What is written in full has an end in every direction. -/
theorem Written.accessible {met : List ObjectId} {nested : Bool} {value : Value} {text : Text}
    (nothing : met = []) :
    Written view (fun _ _ => []) met nested value text → Acc view.Inside value
  | .atom isText => by
    refine ⟨_, fun inner inside => ?_⟩
    cases value with
    | nil | bool _ | number _ => cases inside
    | ref _ | stack _ => cases isText
  | .bare isString | .quoted isString => accessible_string isString
  | .short _ _ member => (List.not_mem_nil (nothing ▸ member)).elim
  | .full here _ _ parts => by
    refine ⟨_, fun inner inside => parts.accessible rfl inner ?_⟩
    rwa [Inside, View.parts, here] at inside
  | .struct here slots => by
    refine ⟨_, fun inner inside => slots.accessible nothing inner ?_⟩
    rwa [Inside, View.parts, here] at inside
  | .noObject missing | .noStruct missing => by
    refine ⟨_, fun inner inside => ?_⟩
    rw [Inside, View.parts, missing] at inside
    cases inside

theorem WrittenSlots.accessible {met : List ObjectId} {slots : List Slot} {texts : List Text}
    (nothing : met = []) : WrittenSlots view (fun _ _ => []) met slots texts →
    ∀ value, Held value slots → Acc view.Inside value
  | .plain first _, _, .here => first.accessible nothing
  | .plain _ rest, _, .later held => rest.accessible nothing _ held
  | .nested inside _, _, .inner held => inside.accessible nothing _ held
  | .nested _ rest, _, .later held => rest.accessible nothing _ held

end

/-- What has an end in every direction does not lead to anything that leads to itself. -/
theorem acyclic_of_accessible {value : Value} (accessible : Acc view.Inside value) :
    view.Acyclic value := by
  replace accessible := accessible.transGen
  induction accessible with
  | intro value _ ih =>
    intro id leads comesBack
    rcases Relation.reflTransGen_iff_eq_or_transGen.mp leads with rfl | leads
    · exact ih _ comesBack id .refl comesBack
    · exact ih _ leads id .refl comesBack

theorem unfolded_iff (grounded : view.Grounded) (value : Value) (text : Text) :
    Unfolded view false value text ↔ view.Acyclic value ∧ text = view.text value := by
  have whole : view.Acyclic value → Unfolded view false value (view.text value) := fun acyclic =>
    (Written.text grounded value).unfold (fun _ member => (List.not_mem_nil member).elim) acyclic
  constructor
  · intro unfolded
    have acyclic := acyclic_of_accessible (unfolded.accessible rfl)
    exact ⟨acyclic, unfolded.unique (whole acyclic)⟩
  · rintro ⟨acyclic, rfl⟩
    exact whole acyclic

end Cycles

/-- The printer comes to an end on every value of every graph, whatever it is in the middle of; its
set is then what it was before, and its text is the one in which just the objects on the path are
cut short. From nothing, that is the text of the value. Everything in it is written in full just
when there is no cycle. -/
theorem text_cuts_cycles (view : View) (grounded : view.Grounded) :
    (∀ (path : List ObjectId) (nested : Bool) (value : Value), ∃ text,
      (∀ result after, Prints view path.toFinset nested value result after ↔
        result = text ∧ after = path.toFinset) ∧
      ∀ result, WrittenOn view path nested value result ↔ result = text) ∧
    (∀ value result after, Prints view ∅ false value result after ↔
      result = view.text value ∧ after = ∅) ∧
    ∀ value result, Unfolded view false value result ↔
      view.Acyclic value ∧ result = view.text value := by
  have decided : ∀ {path : List ObjectId} {nested : Bool} {value : Value} {text : Text},
      WrittenOn view path nested value text →
      ∀ result after, Prints view path.toFinset nested value result after ↔
        result = text ∧ after = path.toFinset := by
    intro path nested value text written result after
    constructor
    · intro run
      obtain ⟨same, isWritten⟩ := run.written rfl
      exact ⟨isWritten.unique written, same⟩
    · rintro ⟨rfl, rfl⟩
      exact written.prints
  refine ⟨fun path nested value => ?_, fun value => decided (Written.text grounded value),
    unfolded_iff grounded⟩
  have written := Written.textWithin grounded (view.depthFor path value) nested (Nat.le_refl _)
  exact ⟨_, decided written, fun result => ⟨fun other => other.unique written, fun same =>
    same ▸ written⟩⟩

/-- An instance of a type with two fields: one leads back to it through a closed cell and the other
names a string. -/
def knot : View where
  heap :=
    { config := {}
      threshold := 1
      nextId := 3
      objects := Std.TreeMap.ofList
        [(0, Object.record 0 #[.ref 1, .ref 2]), (1, Object.cell (.closed (.ref 0))),
          (2, Object.string (ascii "s"))] }
  registry := { structs := #[{ name := ascii "P", fields := [ascii "a", ascii "b"] }] }
  node? _ := none

theorem text_cuts_cycles_knot :
    knot.Grounded ∧ ∀ result after, Prints knot ∅ false (.ref 0) result after ↔
      result = ascii "new P \x7b a = [UpvalueCell new P \x7b ... \x7d], b = \"s\" \x7d" ∧ after = ∅ := by
  have grounded : knot.Grounded := fun _ _ found => nomatch found
  have shown : knot.text (.ref 0)
      = ascii "new P \x7b a = [UpvalueCell new P \x7b ... \x7d], b = \"s\" \x7d" := by
    decide +kernel
  refine ⟨grounded, fun result after => ?_⟩
  rw [← shown]
  exact (text_cuts_cycles knot grounded).2.1 (.ref 0) result after

end View

end ScriptMachine
