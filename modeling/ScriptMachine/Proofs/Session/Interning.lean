import ScriptMachine.Proofs.Heap.Usage
import ScriptMachine.Proofs.Session.Sound

set_option autoImplicit false

/- Interned strings. The table of interned strings has exactly the strings of the heap, each under its
own text, although collections may come at any request. So strings may be compared by identity, and
what has been collected is never mistaken for what takes its place. -/
namespace ScriptMachine

namespace Heap

/-- The table and the string objects of a heap correspond one to one. -/
structure Interns (heap : Heap) : Prop where
  filed : ∀ {text : Text} {id : ObjectId},
    heap.interned[text]? = some id ↔ heap.get? id = some (.string text)
  same : ∀ {one other : ObjectId} {text text' : Text}, heap.get? one = some (.string text) →
    heap.get? other = some (.string text') → (one = other ↔ text = text')

/-- A string gets an object that is not there yet, that nothing refers to, and that is none of those
that were there at some earlier time. -/
structure Renews (earlier before after : Heap) (text : Text) (id : ObjectId) : Prop where
  absent : before.get? id = none
  present : after.get? id = some (.string text)
  unnamed : ∀ {other : ObjectId} {object : Object}, after.get? other = some object →
    id ∉ object.references
  unlike : ∀ {old : ObjectId} {object : Object}, earlier.get? old = some object → old ≠ id

section Strings

variable {heap after : Heap} {roots : Unit → List ObjectId} {text : Text} {id : ObjectId}

theorem Tidy.interns (tidy : heap.Tidy) : heap.Interns where
  filed := tidy.filed
  same {one other text text'} here there := by
    constructor
    · rintro rfl
      cases here.symm.trans there
      rfl
    · rintro rfl
      have entry := tidy.filed.mpr here
      rw [tidy.filed.mpr there] at entry
      exact (Option.some.inj entry).symm

/-- A string that is not filed gets the next identifier. -/
theorem intern_anew (unfiled : heap.interned[text]? = none)
    (ran : intern roots text heap = .ok id after) :
    id = heap.nextId ∧ after.nextId = heap.nextId + 1 ∧
      ∀ other, after.get? other = if id = other then some (.string text)
        else (heap.prepared roots (Object.string text).size.toUInt64).get? other := by
  rw [intern_of_unfiled roots unfiled] at ran
  dsimp only at ran
  split at ran
  · cases ran
  · cases ran
    refine ⟨prepared_nextId _ _ _, ?_, fun other => get?_file _ _ other⟩
    exact congrArg (· + 1) (prepared_nextId _ _ _)

end Strings

/-- Strings are filed under their texts, and no object refers to one that is still to come. -/
structure Founded (heap : Heap) : Prop where
  tidy : heap.Tidy
  named : ∀ {id : ObjectId} {object : Object}, heap.get? id = some object →
    ∀ other ∈ object.references, other < heap.nextId

section Founded

variable {heap : Heap} {roots : Unit → List ObjectId}

theorem founded_empty (config : HeapConfig) : (empty config).Founded where
  tidy := .empty config
  named found := by simp at found

theorem Founded.prepared (founded : heap.Founded) (roots : Unit → List ObjectId) (bytes : UInt64) :
    (heap.prepared roots bytes).Founded where
  tidy := founded.tidy.prepared roots bytes
  named found other member := by
    rw [prepared_nextId]
    exact founded.named (get?_of_prepared found) other member

/-- A new object that refers to older ones. -/
theorem Founded.extend {after : Heap} (founded : heap.Founded) {object : Object} (tidy : after.Tidy)
    (next : after.nextId = heap.nextId + 1)
    (objects : ∀ id, after.get? id = if heap.nextId = id then some object else heap.get? id)
    (older : ∀ other ∈ object.references, other < heap.nextId) : after.Founded where
  tidy := tidy
  named {id found} here other member := by
    rw [next]
    rw [objects] at here
    split at here
    · cases here
      exact Nat.lt_succ_of_lt (older other member)
    · exact Nat.lt_succ_of_lt (founded.named here other member)

theorem Founded.allocate (founded : heap.Founded) {object : Object}
    (plain : ∀ text, object ≠ .string text)
    (older : ∀ other ∈ object.references, other < heap.nextId) :
    (stateLeft (Heap.allocate roots object heap)).Founded ∧
      heap.nextId ≤ (stateLeft (Heap.allocate roots object heap)).nextId := by
  have ready := founded.prepared roots object.size.toUInt64
  have same := prepared_nextId heap roots object.size.toUInt64
  rw [allocate_eq]
  dsimp only
  split
  · exact ⟨ready, Nat.le_of_eq same.symm⟩
  · refine ⟨ready.extend (ready.tidy.link plain) rfl (fun id => get?_link _ _ id) ?_, ?_⟩
    · rw [same]
      exact older
    · change heap.nextId ≤ (heap.prepared roots object.size.toUInt64).nextId + 1
      rw [same]
      exact Nat.le_succ _

theorem Founded.intern (founded : heap.Founded) (text : Text) :
    (stateLeft (Heap.intern roots text heap)).Founded ∧
      heap.nextId ≤ (stateLeft (Heap.intern roots text heap)).nextId := by
  have ready := founded.prepared roots (Object.string text).size.toUInt64
  have same := prepared_nextId heap roots (Object.string text).size.toUInt64
  cases filed : heap.interned[text]? with
  | some id =>
    rw [intern_of_filed roots filed]
    exact ⟨founded, Nat.le_refl _⟩
  | none =>
    rw [intern_of_unfiled roots filed]
    dsimp only
    split
    · exact ⟨ready, Nat.le_of_eq same.symm⟩
    · refine ⟨ready.extend (ready.tidy.intern (prepared_unfiled roots filed _)) rfl
        (fun id => get?_file _ _ id) (by simp [Object.references]), ?_⟩
      change heap.nextId ≤ (heap.prepared roots (Object.string text).size.toUInt64).nextId + 1
      rw [same]
      exact Nat.le_succ _

theorem Founded.recount {other : Heap} (founded : heap.Founded)
    (objects : other.objects = heap.objects) (next : other.nextId = heap.nextId)
    (interned : other.interned = heap.interned) : other.Founded where
  tidy := founded.tidy.of_same objects next interned
  named found := by
    rw [get?, objects] at found
    rw [next]
    exact founded.named found

theorem Founded.set (founded : heap.Founded) {id : ObjectId} {old new : Object}
    (present : heap.get? id = some old) (kind : new.kindName = old.kindName)
    (plain : ∀ text, old ≠ .string text)
    (older : ∀ other ∈ new.references, other < heap.nextId) : (heap.set id new).Founded where
  tidy := by
    refine founded.tidy.set (fun text isString => ?_) fun text => ?_
    · subst isString
      cases old <;> simp_all [Object.kindName, ascii]
    · rw [present]
      exact fun same => plain text (Option.some.inj same)
  named {other found} here := by
    rw [get?_set] at here
    split at here
    · obtain ⟨_, _, same⟩ := Option.map_eq_some_iff.mp here
      rw [← same]
      exact older
    · exact founded.named here

/-- What is interned anew is not among what there is. -/
theorem Founded.renews {earlier after : Heap} (founded : heap.Founded) (tidy : earlier.Tidy)
    (grown : earlier.nextId ≤ heap.nextId) {text : Text} {id : ObjectId}
    (unfiled : heap.interned[text]? = none) (ran : Heap.intern roots text heap = .ok id after) :
    Renews earlier heap after text id := by
  obtain ⟨rfl, next, objects⟩ := intern_anew unfiled ran
  refine ⟨founded.tidy.absent, by rw [objects, if_pos rfl], fun {other object} found member => ?_,
    fun found => ?_⟩
  · rw [objects] at found
    split at found
    · cases found
      cases member
    · have below := founded.named (get?_of_prepared found) _ member
      exact Nat.lt_irrefl _ below
  · rintro rfl
    exact Nat.lt_irrefl _ (Nat.lt_of_lt_of_le (tidy.bounded found) grown)

end Founded

end Heap

namespace Collector.Usage

/-- An operation that refers to objects that have been handed out. What an object holds is replaced
by something of the same kind, and strings are left alone. -/
def Names (usage : Usage) : Operation → Prop
  | .newClosure prototype => prototype < usage.heap.nextId
  | .store id object => ∃ old, usage.heap.get? id = some old ∧ object.kindName = old.kindName ∧
      (∀ text, old ≠ .string text) ∧ ∀ other ∈ object.references, other < usage.heap.nextId
  | _ => True

/-- What any sequence of operations makes of a usage, with any roots. -/
inductive Leads (first : Usage) : Usage → Prop where
  | refl : Leads first first
  | next {usage : Usage} (sources : List (List RootRequest)) (operation : Operation) :
      Leads first usage → usage.Names operation → Leads first (usage.perform sources operation)

section Operations

variable {first usage : Usage}

theorem founded_perform (founded : usage.heap.Founded) (rest : usage.collector.marker.AtRest)
    (sources : List (List RootRequest)) {operation : Operation} (names : usage.Names operation) :
    ((usage.perform sources operation).heap.Founded ∧
      (usage.perform sources operation).collector.marker.AtRest) ∧
      usage.heap.nextId ≤ (usage.perform sources operation).heap.nextId := by
  have asked : ∀ {action : Heap.Action ObjectId},
      (stateLeft (action usage.heap)).Founded ∧ usage.heap.nextId ≤ (stateLeft (action usage.heap)).nextId →
      ((usage.asked action).heap.Founded ∧ (usage.asked action).collector.marker.AtRest) ∧
        usage.heap.nextId ≤ (usage.asked action).heap.nextId :=
    fun left => ⟨⟨left.1, rest⟩, left.2⟩
  cases operation with
  | intern text => exact asked (founded.intern text)
  | newFunction =>
    exact asked (founded.allocate (by simp) (by simp [Object.references, Prototype.references]))
  | newClosure prototype =>
    refine asked (founded.allocate (by simp) fun other member => ?_)
    rcases List.mem_cons.mp member with rfl | inUpvalues
    · exact names
    · simp at inUpvalues
  | newCell slot => exact asked (founded.allocate (by simp) (by simp [Object.references]))
  | newRecord type fieldCount =>
    exact asked (founded.allocate (by simp) (by simp [Object.references, Value.object?]))
  | newNative native => exact asked (founded.allocate (by simp) (by simp [Object.references]))
  | reserve bytes =>
    have ready := founded.prepared (fun _ => roots sources usage.pins) bytes
    have same := Heap.prepared_nextId usage.heap (fun _ => roots sources usage.pins) bytes
    unfold perform
    dsimp only
    rw [Heap.reserve_eq]
    dsimp only
    split
    · next ran =>
      split at ran
      · cases ran
      · cases ran
        exact ⟨⟨ready.recount rfl rfl rfl, rest⟩, Nat.le_of_eq same.symm⟩
    · next ran =>
      split at ran
      · cases ran
        exact ⟨⟨ready, rest⟩, Nat.le_of_eq same.symm⟩
      · cases ran
  | release bytes => exact ⟨⟨founded.recount rfl rfl rfl, rest⟩, Nat.le_refl _⟩
  | collect =>
    have swept := @collect_heap usage.collector sources usage.pins rest
    refine ⟨⟨⟨?_, fun {id object} found other member => ?_⟩, collect_rest rest⟩, ?_⟩
    · change (Collector.collect sources usage.pins usage.collector).heap.Tidy
      rw [swept]
      exact founded.tidy.swept _
    · change (Collector.collect sources usage.pins usage.collector).heap.get? id = _ at found
      change other < (Collector.collect sources usage.pins usage.collector).heap.nextId
      rw [swept] at found ⊢
      exact founded.named (Heap.get?_swept.mp found).1 other member
    · change _ ≤ (Collector.collect sources usage.pins usage.collector).heap.nextId
      rw [swept]
      exact Nat.le_refl _
  | pin object => exact ⟨⟨founded, rest⟩, Nat.le_refl _⟩
  | unpin => exact ⟨⟨founded, rest⟩, Nat.le_refl _⟩
  | store id object =>
    obtain ⟨old, present, kind, plain, older⟩ := names
    exact ⟨⟨founded.set present kind plain older, rest⟩, Nat.le_refl _⟩

theorem Leads.founded (leads : Leads first usage) (founded : first.heap.Founded)
    (rest : first.collector.marker.AtRest) :
    (usage.heap.Founded ∧ usage.collector.marker.AtRest) ∧
      first.heap.nextId ≤ usage.heap.nextId := by
  induction leads with
  | refl => exact ⟨⟨founded, rest⟩, Nat.le_refl _⟩
  | next sources _ _ names ih =>
    obtain ⟨lawful, grown⟩ := founded_perform ih.1.1 ih.1.2 sources names
    exact ⟨lawful, Nat.le_trans ih.2 grown⟩

end Operations

end Collector.Usage

section Machines

variable {machine : Machine}

/-- Strings are equal when their contents are. -/
theorem equal_strings (tidy : machine.heap.Tidy) {one other : ObjectId} {text text' : Text}
    (here : machine.heap.get? one = some (.string text))
    (there : machine.heap.get? other = some (.string text')) :
    machine.view.equal (.ref one) (.ref other) = decide (text = text') := by
  change (one == other) = _
  rw [Bool.eq_iff_iff, decide_eq_true_iff, beq_iff_eq]
  exact tidy.interns.same here there

/-- What the machine has in use does not lead to a string that is interned anew. -/
theorem Machine.Usable.unreached {pinned : List ObjectId} {text : Text} {id : ObjectId} {after : Heap}
    (usable : machine.Usable) (unfiled : machine.heap.interned[text]? = none)
    (ran : Heap.intern (fun _ => pinned ++ machine.roots) text machine.heap = .ok id after) :
    ¬ Heap.Reaches after.objects machine.roots id := by
  obtain ⟨_, _, _, _, data⟩ := usable.data
  have retains : Heap.Retains machine.roots machine.heap
      (stateLeft (Heap.intern (fun _ => pinned ++ machine.roots) text machine.heap)) :=
    (Heap.Retains.refl machine.roots machine.heap).intern data.bounded
      (fun _ member => List.mem_append_right _ member) text
  rw [ran] at retains
  intro reached
  have below := data.bounded id (retains.reaches.mp reached)
  rw [(Heap.intern_anew unfiled ran).1] at below
  exact Nat.lt_irrefl _ below

end Machines

namespace Session

open Collector (Usage)

/-- Interning is a bijection between texts and string objects. Whatever is asked of a heap, its table
has its strings, and a text that is interned again gets an object unlike all earlier ones. In a
session, strings are equal when their contents are, globals have different names, and what the
machine has in use never leads to a string that is interned anew. -/
theorem interning_bijective :
    (∀ {config : HeapConfig} {usage later : Usage},
      Usage.Leads { collector := { heap := .empty config } } usage → Usage.Leads usage later →
      usage.heap.Interns ∧
      ∀ {roots : Unit → List ObjectId} {text : Text} {id : ObjectId} {after : Heap},
        later.heap.interned[text]? = none → Heap.intern roots text later.heap = .ok id after →
        Heap.Renews usage.heap later.heap after text id) ∧
    ∀ {session : Session}, Reachable session →
      session.machine.heap.Interns ∧
      (∀ {one other : ObjectId} {text text' : Text},
        session.machine.heap.get? one = some (.string text) →
        session.machine.heap.get? other = some (.string text') →
        session.machine.view.equal (.ref one) (.ref other) = decide (text = text')) ∧
      (∀ {name other : ObjectId} {value value' : Value},
        session.machine.globals[name]? = some value → session.machine.globals[other]? = some value' →
        ∃ text text', session.machine.heap.get? name = some (.string text) ∧
          session.machine.heap.get? other = some (.string text') ∧ (name = other ↔ text = text')) ∧
      ∀ {pinned : List ObjectId} {text : Text} {id : ObjectId} {after : Heap},
        session.machine.heap.interned[text]? = none →
        Heap.intern (fun _ => pinned ++ session.machine.roots) text session.machine.heap
          = .ok id after →
        session.machine.heap.get? id = none ∧ after.get? id = some (.string text) ∧
          ¬ Heap.Reaches after.objects session.machine.roots id := by
  constructor
  · intro config usage later leads leads'
    obtain ⟨⟨founded, rest⟩, _⟩ := leads.founded (Heap.founded_empty config) Marker.atRest_new
    obtain ⟨⟨founded', _⟩, grown⟩ := leads'.founded founded rest
    exact ⟨founded.tidy.interns, fun unfiled ran => founded'.renews founded.tidy grown unfiled ran⟩
  · intro session reachable
    have usable := reachable.usable
    have filed := usable.poised.filed
    refine ⟨filed.tidy.interns, fun here there => equal_strings filed.tidy here there,
      fun {name other value value'} here there => ?_, fun unfiled ran => ⟨?_, ?_, usable.unreached unfiled ran⟩⟩
    · obtain ⟨text, isString⟩ := filed.globals here
      obtain ⟨text', isString'⟩ := filed.globals there
      exact ⟨text, text', isString, isString', filed.tidy.interns.same isString isString'⟩
    · rw [(Heap.intern_anew unfiled ran).1]
      exact filed.tidy.absent
    · exact Machine.get?_interned filed.tidy ran

/-- A new heap with one string, which nothing uses. -/
def littered : Usage where
  collector := { heap := (Heap.empty {}).file (ascii "a") }

/-- The string is collected, and then it is asked for again. -/
theorem interning_bijective_littered :
    Usage.Leads { collector := { heap := .empty {} } } littered ∧
      littered.heap.interned[ascii "a"]? = some 0 ∧
      ∃ id after, Heap.intern (fun _ => []) (ascii "a") (littered.perform [] .collect).heap
          = .ok id after ∧
        Heap.Renews littered.heap (littered.perform [] .collect).heap after (ascii "a") id := by
  have unfiled : (Heap.empty {}).interned[ascii "a"]? = none := by simp [Heap.empty]
  have interned : Heap.intern (fun _ => Collector.roots [] []) (ascii "a") (Heap.empty {})
      = .ok 0 ((Heap.empty {}).file (ascii "a")) := by
    rw [Heap.intern_of_unfiled _ unfiled]
    rfl
  have first : Usage.Leads { collector := { heap := .empty {} } } littered := by
    have same : Usage.perform { collector := { heap := .empty {} } } [] (.intern (ascii "a"))
        = littered := by
      simp only [Usage.perform, Usage.asked, Usage.heap, interned, stateLeft]
      rfl
    rw [← same]
    exact .next [] (.intern (ascii "a")) .refl trivial
  have second : Usage.Leads littered (littered.perform [] .collect) :=
    Usage.Leads.refl.next [] .collect trivial
  have swept : (littered.perform [] .collect).heap.objects.isEmpty = true := by decide +kernel
  have gone : (littered.perform [] .collect).heap.interned[ascii "a"]? = none := by
    cases found : (littered.perform [] .collect).heap.interned[ascii "a"]? with
    | none => rfl
    | some id =>
      have interns := (interning_bijective.1 (first.next [] .collect trivial) .refl).1
      have present := interns.filed.mp found
      rw [Heap.get?, Std.TreeMap.getElem?_of_isEmpty swept] at present
      cases present
  obtain ⟨id, after, ran, _⟩ := @Heap.intern_unlimited (littered.perform [] .collect).heap
    (fun _ => []) (ascii "a") rfl
  refine ⟨first, ?_, id, after, ran, (interning_bijective.1 first second).2 gone ran⟩
  exact (interning_bijective.1 first .refl).1.filed.mpr rfl

end Session

end ScriptMachine
