import ScriptMachine.Proofs.Machine.Confined
import ScriptMachine.Proofs.Machine.Promotion
import ScriptMachine.Proofs.Machine.Standing
import ScriptMachine.Proofs.StackStruct.Worth
import ScriptMachine.Proofs.Twins.Views

set_option autoImplicit false

/- A struct that has been moved to the heap looks like the struct it was, and nothing else has changed
its looks. What a value looks like depends on the objects that it leads to, so this is a matter of
which of them are still the same. -/
namespace ScriptMachine

mutual

/-- The text of a struct, with the word for heap instances before the name of every struct type. -/
def StackStruct.movedText (view : View) (plainText : Value → Text) : StackStruct → Text
  | .node _ type slots _ =>
    ascii "new " ++ structText (view.structType type) (movedTexts view plainText slots)

def movedTexts (view : View) (plainText : Value → Text) : List Slot → List Text
  | [] => []
  | .plain value :: rest => plainText value :: movedTexts view plainText rest
  | .nested inner :: rest => inner.movedText view plainText :: movedTexts view plainText rest

end

namespace View

variable {view view' : View} {live : ObjectId → Prop}

/-- The live objects are all there in every heap that has the same ones. -/
theorem backs_same {heap heap' : Heap} (backs : heap.Backs live)
    (same : ∀ {id : ObjectId}, live id → heap'.get? id = heap.get? id) : heap'.Backs live where
  present isLive := by
    rw [same isLive]
    exact backs.present isLive
  closed isLive here := backs.closed isLive (same isLive ▸ here)
  plain isLive here := backs.plain isLive (same isLive ▸ here)

theorem functionText_same (backs : view.heap.Backs live)
    (same : ∀ {id : ObjectId}, live id → view'.heap.get? id = view.heap.get? id) {id : ObjectId}
    (isLive : live id) : view'.functionText id = view.functionText id := by
  obtain ⟨object, here⟩ := backs.present isLive
  have here' := (same isLive).trans here
  simp only [functionText, Heap.prototype?, here, here']
  cases object with
  | function body =>
    obtain ⟨name, _, _, _, _, _, _, _⟩ := body
    cases name with
    | none => rfl
    | some name =>
      have named : live name := backs.closed isLive here
        (List.mem_append_left _ (Option.mem_toList.mpr rfl))
      simp only [Heap.string?, same named]
  | string _ | closure _ _ | cell _ | record _ _ | native _ => rfl

/-- A value is written alike wherever the live objects are the same. Others may be being written. -/
theorem textWithin_same (backs : view.heap.Backs live)
    (same : ∀ {id : ObjectId}, live id → view'.heap.get? id = view.heap.get? id)
    (registry : view'.registry = view.registry) (depth : Nat) {visiting visiting' : List ObjectId}
    (nested : Bool) {value : Value} (kept : value.Kept live)
    (met : ∀ {id : ObjectId}, live id → (id ∈ visiting' ↔ id ∈ visiting)) :
    view'.textWithin depth visiting' nested value = view.textWithin depth visiting nested value := by
  have types : ∀ type, view'.structType type = view.structType type := fun type => by
    rw [structType, structType, registry]
  induction depth generalizing visiting visiting' nested value with
  | zero =>
    cases value with
    | bool value => cases value <;> rfl
    | nil | number _ | ref _ | stack _ => rfl
  | succ depth ih =>
    cases value with
    | nil | number _ => rfl
    | bool value => cases value <;> rfl
    | stack _ => exact kept.elim
    | ref id =>
      obtain ⟨object, here⟩ := backs.present kept
      have here' := (same kept).trans here
      have once : visiting'.contains id = visiting.contains id := by
        rw [Bool.eq_iff_iff, List.contains_iff_mem, List.contains_iff_mem]
        exact met kept
      have inner : ∀ {inside : Value}, inside.Kept live →
          view'.textWithin depth (id :: visiting') true inside
            = view.textWithin depth (id :: visiting) true inside := by
        intro inside isKept
        refine ih true isKept fun {other} isLive => ?_
        rw [List.mem_cons, List.mem_cons, met isLive]
      have keptIn : ∀ inside : Value, inside.Plain →
          (∀ other, inside.object? = some other → other ∈ object.references) →
          inside.Kept live := by
        intro inside isPlain among
        cases inside with
        | ref other => exact backs.closed kept here (among other rfl)
        | stack _ => cases isPlain
        | nil | bool _ | number _ => trivial
      simp only [View.textWithin, here, here']
      cases object with
      | string _ => rfl
      | function _ => simp only [once, elidedText, objectText, functionText_same backs same kept]
      | closure prototype _ =>
        have isLive := backs.closed kept here List.mem_cons_self
        simp only [once, elidedText, objectText, functionText_same backs same isLive]
      | native _ => simp only [once, elidedText, objectText]
      | cell contents =>
        cases contents with
        | onStack _ => simp only [once, elidedText, objectText]
        | closed value =>
          have isKept : value.Kept live := keptIn value (backs.plain kept here) fun other isObject => by
            simp [Object.references, isObject]
          simp only [once, elidedText, objectText, inner isKept]
      | record type fields =>
        have texts : fields.toList.map (view'.textWithin depth (id :: visiting') true)
            = fields.toList.map (view.textWithin depth (id :: visiting) true) := by
          refine List.map_congr_left fun field member => inner ?_
          refine keptIn field (backs.plain kept here field (Array.mem_toList_iff.mp member))
            fun other isObject => ?_
          exact List.mem_filterMap.mpr ⟨field, member, isObject⟩
        simp only [once, elidedText, objectText, types, texts]

/-- To any depth that is enough on either side. -/
theorem textWithin_settled (backs : view.heap.Backs live)
    (same : ∀ {id : ObjectId}, live id → view'.heap.get? id = view.heap.get? id)
    (registry : view'.registry = view.registry) {depth depth' : Nat} {visiting' : List ObjectId}
    (nested : Bool) {value : Value} (kept : value.Kept live)
    (met : ∀ {id : ObjectId}, live id → id ∉ visiting')
    (deep : view.heap.objectCount < depth) (deep' : view'.unvisited visiting' < depth') :
    view'.textWithin depth' visiting' nested value = view.textWithin depth [] nested value := by
  have few := view.unvisited_le []
  calc view'.textWithin depth' visiting' nested value
    _ = view'.textWithin (max depth depth') visiting' nested value :=
      textWithin_deep (backs_same backs same) _ nested kept deep' (by omega)
    _ = view.textWithin (max depth depth') [] nested value :=
      textWithin_same backs same registry _ nested kept fun isLive => by simp [met isLive]
    _ = view.textWithin depth [] nested value :=
      textWithin_deep backs _ nested kept (by omega) (by omega)

mutual

theorem text_same_slots (types : ∀ type, view'.structType type = view.structType type)
    {plainText plainText' : Value → Text}
    (same : ∀ {value : Value}, value.Kept live → plainText' value = plainText value) :
    (struct : StackStruct) → struct.Fits (Value.Kept live) (fun _ _ => True) →
    struct.text view' plainText' = struct.text view plainText
  | .node _ type slots _, fits => by
    simp only [StackStruct.text, types, texts_same_slots types same slots fits.2]

theorem texts_same_slots (types : ∀ type, view'.structType type = view.structType type)
    {plainText plainText' : Value → Text}
    (same : ∀ {value : Value}, value.Kept live → plainText' value = plainText value) :
    (slots : List Slot) → StackStruct.FitsSlots (Value.Kept live) (fun _ _ => True) slots →
    slotTexts view' plainText' slots = slotTexts view plainText slots
  | [], _ => rfl
  | .plain _ :: rest, fits => by
    simp only [slotTexts, same fits.1, texts_same_slots types same rest fits.2]
  | .nested inner :: rest, fits => by
    simp only [slotTexts, text_same_slots types same inner fits.1,
      texts_same_slots types same rest fits.2]

end

/-- A struct looks the same wherever it is found with the same live objects. -/
theorem text_stack_same (backs : view.heap.Backs live)
    (same : ∀ {id : ObjectId}, live id → view'.heap.get? id = view.heap.get? id)
    (registry : view'.registry = view.registry) {node : NodeId} {struct : StackStruct}
    (here : view.node? node = some struct) (here' : view'.node? node = some struct)
    (fits : struct.Fits (Value.Kept live) fun _ _ => True) :
    view'.text (.stack node) = view.text (.stack node) := by
  have few := view'.unvisited_le []
  rw [text_stack here, text_stack here']
  refine text_same_slots (fun type => by rw [structType, structType, registry]) (fun {value} kept => ?_)
    struct fits
  exact textWithin_settled backs same registry true kept (by simp) (by omega) (by omega)

mutual

/-- The copy of a struct is written as the struct is, but for the word for heap instances. -/
theorem text_copied (backs : view.heap.Backs live)
    (same : ∀ {id : ObjectId}, live id → view'.heap.get? id = view.heap.get? id)
    (registry : view'.registry = view.registry) : (struct : StackStruct) →
    {first next : ObjectId} → {depth : Nat} → {visiting : List ObjectId} → {nested : Bool} →
    view'.heap.Copied struct first next → struct.Fits (Value.Kept live) (fun _ _ => True) →
    (∀ id ∈ visiting, id < first ∧ ¬ live id) → (∀ id, first ≤ id → id < next → ¬ live id) →
    view'.unvisited visiting < depth →
    view'.textWithin depth visiting nested (.ref first) = struct.movedText view view.partText
  | .node _ type slots _, first, next, depth, visiting, nested, copied, fits, met, new, deep => by
    have size := Heap.Copied.next_eq _ copied
    obtain ⟨fields, here, inside⟩ := copied
    have apart : first ∉ visiting := fun member => Nat.lt_irrefl _ (met first member).1
    have fewer := unvisited_cons here apart
    have after := Heap.CopiedSlots.next_eq slots inside
    obtain ⟨depth, rfl⟩ : ∃ less, depth = less + 1 := ⟨depth - 1, by omega⟩
    have metNow : ∀ id ∈ first :: visiting, id < first + 1 ∧ ¬ live id := by
      intro id member
      rcases List.mem_cons.mp member with rfl | later
      · exact ⟨Nat.lt_succ_self _, new _ (Nat.le_refl _) (by lia)⟩
      · exact ⟨Nat.lt_succ_of_lt (met id later).1, (met id later).2⟩
    have texts : fields.map (view'.textWithin depth (first :: visiting) true)
        = movedTexts view view.partText slots :=
      texts_copied backs same registry slots inside fits.2 metNow
        (fun id low high => new id (by lia) high) (by omega)
    simp only [View.textWithin, here, List.contains_iff_mem, apart, ↓reduceIte, objectText, texts,
      StackStruct.movedText, structType, registry]

theorem texts_copied (backs : view.heap.Backs live)
    (same : ∀ {id : ObjectId}, live id → view'.heap.get? id = view.heap.get? id)
    (registry : view'.registry = view.registry) : (slots : List Slot) → {fields : List Value} →
    {first next : ObjectId} → {depth : Nat} → {visiting : List ObjectId} →
    view'.heap.CopiedSlots slots fields first next →
    StackStruct.FitsSlots (Value.Kept live) (fun _ _ => True) slots →
    (∀ id ∈ visiting, id < first ∧ ¬ live id) → (∀ id, first ≤ id → id < next → ¬ live id) →
    view'.unvisited visiting < depth →
    fields.map (view'.textWithin depth visiting true) = movedTexts view view.partText slots
  | [], [], _, _, _, _, _, _, _, _, _ => rfl
  | .plain value :: rest, field :: fields, first, next, depth, visiting, copied, fits, met, new,
      deep => by
    obtain ⟨rfl, inside⟩ := copied
    have part : view'.textWithin depth visiting true field = view.partText field :=
      textWithin_settled backs same registry true fits.1
        (fun isLive member => (met _ member).2 isLive) (by omega) deep
    rw [List.map_cons, movedTexts, texts_copied backs same registry rest inside fits.2 met new deep,
      part]
  | .nested inner :: rest, field :: fields, first, next, depth, visiting, copied, fits, met, new,
      deep => by
    obtain ⟨rfl, middle, isCopy, inside⟩ := copied
    have front := Heap.Copied.next_eq inner isCopy
    have back := Heap.CopiedSlots.next_eq rest inside
    rw [List.map_cons, movedTexts,
      text_copied backs same registry inner isCopy fits.1 met (fun id low high => new id low (by lia))
        deep,
      texts_copied backs same registry rest inside fits.2
        (fun id member => ⟨by have := (met id member).1; lia, (met id member).2⟩)
        (fun id low high => new id (by lia) high) deep]
  | [], _ :: _, _, _, _, _, copied, _, _, _, _ | .plain _ :: _, [], _, _, _, _, copied, _, _, _, _
  | .nested _ :: _, [], _, _, _, _, copied, _, _, _, _ => by simp [Heap.CopiedSlots] at copied

end

end View

mutual

/-- A struct whose plain slots name no struct, and whose references are live. -/
theorem StackStruct.Plain.kept {live : ObjectId → Prop} : (struct : StackStruct) → struct.Plain →
    (∀ id ∈ struct.references, live id) → struct.Fits (Value.Kept live) fun _ _ => True
  | .node _ _ slots _, plain, named => ⟨trivial, StackStruct.PlainSlots.kept slots plain.1 named⟩

theorem StackStruct.PlainSlots.kept {live : ObjectId → Prop} : (slots : List Slot) →
    StackStruct.PlainSlots slots → (∀ id ∈ StackStruct.slotReferences slots, live id) →
    StackStruct.FitsSlots (Value.Kept live) (fun _ _ => True) slots
  | [], _, _ => trivial
  | .plain value :: rest, plain, named => by
    rw [StackStruct.slotReferences_cons] at named
    refine ⟨?_, StackStruct.PlainSlots.kept rest plain.2 fun id member =>
      named id (List.mem_append_right _ member)⟩
    cases value with
    | ref id => exact named id (List.mem_append_left _ List.mem_cons_self)
    | stack _ => cases plain.1
    | nil | bool _ | number _ => trivial
  | .nested inner :: rest, plain, named =>
    ⟨StackStruct.Plain.kept inner plain.1 fun id member => named id (List.mem_append_left _ member),
      StackStruct.PlainSlots.kept rest plain.2 fun id member =>
        named id (List.mem_append_right _ member)⟩

end

namespace Machine

/-- A machine in which everything in use is there, the pinned objects included. -/
structure Whole (machine : Machine) (pinned : List ObjectId) : Prop where
  tidy : machine.heap.Tidy
  confined : Confined machine
  present : ∀ {id : ObjectId}, Heap.Reaches machine.heap.objects (pinned ++ machine.roots) id →
    ∃ object, machine.heap.get? id = some object

/-- A struct and its copy on the heap, in the heap that the copy has been made in. -/
structure Promotes (machine : Machine) (pinned : List ObjectId) (struct : StackStruct) (id : ObjectId)
    (heap : Heap) : Prop where
  /-- The instances from this one on are a copy of the struct and of those nested in it. -/
  copied : heap.Copied struct id heap.nextId
  /-- There is one for each of them. -/
  count : heap.nextId = id + struct.currentCount
  /-- None of the instances was there before. -/
  fresh : ∀ {other : ObjectId}, id ≤ other → machine.heap.get? other = none
  /-- Whatever else is on the heap is as it was, and nothing in use has gone. -/
  old : ∀ {other : ObjectId} {object : Object}, other < id → heap.get? other = some object →
    machine.heap.get? other = some object
  kept : ∀ {other : ObjectId}, Heap.Reaches machine.heap.objects (pinned ++ machine.roots) other →
    heap.get? other = machine.heap.get? other
  /-- The copy looks like the struct, but for the word for heap instances. -/
  text : ({ machine with heap } : Machine).view.text (.ref id)
    = struct.movedText machine.view machine.view.partText
  /-- Whatever becomes of the frames, the copy looks the same. -/
  apart : ∀ frames, ({ machine with heap, frames } : Machine).view.text (.ref id)
    = ({ machine with heap } : Machine).view.text (.ref id)
  /-- Whatever becomes of the copy, the struct looks the same. -/
  apart' : ∀ heap' : Heap, (∀ {other : ObjectId}, other < id → heap'.get? other = heap.get? other) →
    ({ machine with heap := heap' } : Machine).view.text (.stack struct.id)
      = struct.text machine.view machine.view.partText

section Moving

variable {machine : Machine} {pinned : List ObjectId} {struct : StackStruct}

theorem Whole.backs (whole : Whole machine pinned) :
    machine.heap.Backs (Heap.Reaches machine.heap.objects (pinned ++ machine.roots)) where
  present := whole.present
  closed reached here member := reached.next here member
  plain _ here := whole.confined.heap _ _ here

theorem Whole.bounded (whole : Whole machine pinned) :
    machine.heap.Bounded (pinned ++ machine.roots) := fun _ reached => by
  obtain ⟨object, here⟩ := whole.present reached
  exact whole.tidy.bounded here

/-- What a struct on the operand stack refers to is a root. -/
theorem references_rooted (onStack : .stack struct.id ∈ machine.stack)
    (here : machine.node? struct.id = some struct) {id : ObjectId} (member : id ∈ struct.references) :
    id ∈ pinned ++ machine.roots := by
  refine List.mem_append_right _ (mem_roots_of_stackRoots ?_)
  refine List.mem_flatMap.mpr ⟨_, Array.mem_toList_iff.mpr onStack, ?_⟩
  simpa [valueRoots, here] using member

/-- A struct on the operand stack is copied to the heap, deeply and without touching anything else.
Only a heap with a limit can refuse this. -/
theorem promote_copies_deeply (whole : Whole machine pinned)
    (onStack : .stack struct.id ∈ machine.stack) (here : machine.node? struct.id = some struct) :
    Allots (promote pinned struct) machine (Promotes machine pinned struct) := by
  have backs := whole.backs
  have fits : struct.Fits (Value.Kept (Heap.Reaches machine.heap.objects
      (pinned ++ machine.roots))) fun _ _ => True :=
    StackStruct.Plain.kept struct (whole.confined.node? here) fun id member =>
      .root (references_rooted onStack here member)
  refine (allots_promote struct whole.bounded fun id member =>
    references_rooted onStack here member).mono fun id heap made => ?_
  obtain ⟨rfl, copied, retains⟩ := made
  have kept : ∀ {other : ObjectId},
      Heap.Reaches machine.heap.objects (pinned ++ machine.roots) other →
      heap.get? other = machine.heap.get? other := fun reached => retains.kept _ reached
  have unborn : ∀ {other : ObjectId}, machine.heap.nextId ≤ other →
      ¬ Heap.Reaches machine.heap.objects (pinned ++ machine.roots) other := fun above reached =>
    absurd (whole.bounded _ reached) (Nat.not_lt.mpr above)
  have text : ∀ frames, ({ machine with heap, frames } : Machine).view.text
      (.ref machine.heap.nextId) = struct.movedText machine.view machine.view.partText := by
    intro frames
    let view' := ({ machine with heap, frames } : Machine).view
    have few := view'.unvisited_le []
    have deep : view'.unvisited [] < view'.fullDepth := by
      rw [View.fullDepth]
      omega
    have same : ∀ {other : ObjectId},
        Heap.Reaches machine.heap.objects (pinned ++ machine.roots) other →
        view'.heap.get? other = machine.view.heap.get? other := kept
    exact View.text_copied backs same rfl struct copied fits
      (fun _ member => absurd member List.not_mem_nil) (fun id low _ => unborn low) deep
  refine ⟨copied, Heap.Copied.next_eq struct copied, fun {other} above => ?_,
    fun below found => retains.old below found, kept, text machine.frames, fun frames => (text frames).trans (text machine.frames).symm,
    fun heap' same => ?_⟩
  · cases present : machine.heap.get? other with
    | none => rfl
    | some object => exact absurd (whole.tidy.bounded present) (Nat.not_lt.mpr above)
  · have before : machine.view.text (.stack struct.id)
        = struct.text machine.view machine.view.partText := View.text_stack here
    let view' := ({ machine with heap := heap' } : Machine).view
    have unchanged : ∀ {other : ObjectId},
        Heap.Reaches machine.heap.objects (pinned ++ machine.roots) other →
        view'.heap.get? other = machine.view.heap.get? other := fun reached =>
      (same (whole.bounded _ reached)).trans (kept reached)
    rw [← before]
    exact View.text_stack_same backs unchanged rfl here here fits

/-- Whatever a running machine has in use is there. -/
theorem Data.whole {program : Program} {live : ObjectId → Prop} {pending : List ObjectId}
    {shape : Shape} (data : Data program live pending shape machine) (confined : Confined machine) :
    Whole machine [] where
  tidy := data.stored.tidy
  confined := confined
  present reached := by
    obtain ⟨object, here, _⟩ := data.stored.sane (data.reached reached)
    exact ⟨object, here⟩

/-- A struct with another one in it, and with a reference to a closure. -/
def owning : StackStruct :=
  .node 0 0 [.nested (.node 1 1 [.plain (.bool true)] []), .plain (.ref 1)] []

/-- A machine that collects at every request, with the struct on its operand stack. -/
def stressed : Machine where
  config := {}
  heap := ((Heap.empty { stress := true }).link (.function {})).link (.closure 0 #[])
  stack := #[.stack 0]
  frames := [{ closure := 1, base := 0, arena := [owning] }]

theorem promote_copies_deeply_stressed : Whole stressed [] ∧ .stack owning.id ∈ stressed.stack ∧
    stressed.node? owning.id = some owning ∧
    Allots (promote [] owning) stressed (Promotes stressed [] owning) := by
  have onStack : .stack owning.id ∈ stressed.stack := by simp [stressed, owning, StackStruct.id]
  have here : stressed.node? owning.id = some owning := rfl
  have rooted : ∀ id ∈ stressed.roots, id = 1 := by
    intro id member
    have ofStruct : stressed.valueRoots (.stack 0) = [1] := rfl
    have ofFrame : stressed.frames.flatMap Frame.roots = [1, 1] := rfl
    simpa [roots, ofStruct, ofFrame, show stressed.held = [] from rfl,
      show stressed.registry.roots = [] from rfl, show stressed.stack.toList = [.stack 0] from rfl,
      show stressed.globals = {} from rfl, show stressed.natives = {} from rfl,
      show stressed.openCells = [] from rfl] using member
  have function : stressed.heap.get? 0 = some (.function {}) := by
    rw [stressed, Heap.get?_link, if_neg (by decide), Heap.get?_link, if_pos (by decide)]
  have closure : stressed.heap.get? 1 = some (.closure 0 #[]) := by
    rw [stressed, Heap.get?_link, if_pos (by decide)]
  have whole : Whole stressed [] := by
    refine ⟨?_, ⟨?_, by simp [stressed], ?_⟩, fun {id} reached => ?_⟩
    · exact ((Heap.Tidy.empty _).link (by simp)).link (by simp)
    · exact ((Heap.plain_empty _).link (by simp [Object.Plain])).link trivial
    · simp [stressed, owning, StackStruct.Plain, StackStruct.PlainSlots, StackStruct.PlainAmong,
        Value.Plain, Value.node?]
    · have either : id = 0 ∨ id = 1 := by
        induction reached with
        | root member => exact Or.inr (rooted _ member)
        | next _ present member ih =>
          rcases ih with rfl | rfl
          · cases function.symm.trans present
            simp [Object.references, Prototype.references] at member
          · cases closure.symm.trans present
            exact Or.inl (by simpa [Object.references] using member)
      rcases either with rfl | rfl
      · exact ⟨_, function⟩
      · exact ⟨_, closure⟩
  exact ⟨whole, onStack, here, promote_copies_deeply whole onStack here⟩

end Moving

end Machine

end ScriptMachine
