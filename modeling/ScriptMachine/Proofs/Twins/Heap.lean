import Mathlib.Data.List.Forall2
import Mathlib.Order.Basic
import ScriptMachine.Proofs.Heap.Retained

set_option autoImplicit false

/- Two heaps that hold the same objects under other identifiers. Each has its own collections behind
it, so an object of one may be missing in the other: a pairing of identifiers only ever grows, and it
promises something of two objects as long as both are there. Strings are found again by their
contents, so a string can have been paired with several that are gone; nothing else can. -/
namespace ScriptMachine

/-- Which objects of one heap stand for which objects of another. -/
abbrev Pairing := ObjectId → ObjectId → Prop

/-- A pairing in which two more objects stand for each other. -/
def Pairing.joined (pairs : Pairing) (left right : ObjectId) : Pairing :=
  fun a b => pairs a b ∨ a = left ∧ b = right

/-- A pairing read from right to left. -/
def Pairing.swapped (pairs : Pairing) : Pairing :=
  fun a b => pairs b a

section Pairings

variable {pairs : Pairing} {left right : ObjectId}

theorem Pairing.le_joined : pairs ≤ pairs.joined left right :=
  fun _ _ => Or.inl

theorem Pairing.joined_new : pairs.joined left right left right :=
  Or.inr ⟨rfl, rfl⟩

end Pairings

/-- Arrays of one length whose entries are related place by place. -/
structure Across {α β : Type} (relation : α → β → Prop) (left : Array α) (right : Array β) :
    Prop where
  size : left.size = right.size
  each : ∀ {index : Nat} {a : α} {b : β}, left[index]? = some a → right[index]? = some b →
    relation a b

section Arrays

variable {α β : Type} {relation other : α → β → Prop} {left : Array α} {right : Array β}

theorem Across.mono (across : Across relation left right)
    (weaker : ∀ a b, relation a b → other a b) : Across other left right :=
  ⟨across.size, fun here there => weaker _ _ (across.each here there)⟩

theorem Across.swap (across : Across relation left right) :
    Across (fun b a => relation a b) right left :=
  ⟨across.size.symm, fun here there => across.each there here⟩

theorem Across.empty : Across relation #[] #[] :=
  ⟨rfl, fun here => by simp at here⟩

/-- What stands at a place on the left has a counterpart on the right. -/
theorem Across.at (across : Across relation left right) {index : Nat} {a : α}
    (here : left[index]? = some a) : ∃ b, right[index]? = some b ∧ relation a b := by
  have inside : index < right.size := by
    rw [← across.size]
    exact (Array.getElem?_eq_some_iff.mp here).1
  have there : right[index]? = some right[index] := Array.getElem?_eq_getElem inside
  exact ⟨right[index], there, across.each here there⟩

theorem Across.at_none (across : Across relation left right) {index : Nat}
    (here : left[index]? = none) : right[index]? = none := by
  rw [Array.getElem?_eq_none_iff] at here ⊢
  rwa [← across.size]

theorem Across.push (across : Across relation left right) {a : α} {b : β} (related : relation a b) :
    Across relation (left.push a) (right.push b) := by
  refine ⟨by simp [across.size], fun {index a' b'} here there => ?_⟩
  rw [Array.getElem?_push] at here there
  rw [← across.size] at there
  split at here
  · next last =>
    rw [if_pos last] at there
    cases here
    cases there
    exact related
  · next before =>
    rw [if_neg before] at there
    exact across.each here there

theorem Across.pop (across : Across relation left right) : Across relation left.pop right.pop := by
  refine ⟨by simp [across.size], fun {index a b} here there => ?_⟩
  rw [Array.getElem?_pop] at here there
  split at here
  · split at there
    · exact across.each here there
    · cases there
  · cases here

theorem Across.set (across : Across relation left right) (index : Nat) {a : α} {b : β}
    (related : relation a b) :
    Across relation (left.setIfInBounds index a) (right.setIfInBounds index b) := by
  refine ⟨by simp [across.size], fun {place a' b'} here there => ?_⟩
  rw [Array.getElem?_setIfInBounds] at here there
  rw [← across.size] at there
  split at here
  · next same =>
    rw [if_pos same] at there
    split at here
    · next inside =>
      rw [if_pos inside] at there
      cases here
      cases there
      exact related
    · cases here
  · next apart =>
    rw [if_neg apart] at there
    exact across.each here there

theorem Across.shrink (across : Across relation left right) (size : Nat) :
    Across relation (left.shrink size) (right.shrink size) := by
  refine ⟨by simp [across.size], fun {index a b} here there => ?_⟩
  rw [Array.getElem?_eq_some_iff] at here there
  obtain ⟨insideLeft, rfl⟩ := here
  obtain ⟨insideRight, rfl⟩ := there
  rw [Array.size_shrink] at insideLeft insideRight
  rw [Array.getElem_shrink, Array.getElem_shrink]
  exact across.each (Array.getElem?_eq_getElem (by omega)) (Array.getElem?_eq_getElem (by omega))

theorem Across.extract (across : Across relation left right) (start stop : Nat) :
    Across relation (left.extract start stop) (right.extract start stop) := by
  refine ⟨by simp [across.size], fun {index a b} here there => ?_⟩
  rw [Array.getElem?_extract] at here there
  split at here
  · split at there
    · exact across.each here there
    · cases there
  · cases here

theorem Across.replicate {a : α} {b : β} (related : relation a b) (count : Nat) :
    Across relation (Array.replicate count a) (Array.replicate count b) := by
  refine ⟨by simp, fun {index a' b'} here there => ?_⟩
  rw [Array.getElem?_replicate] at here there
  split at here
  · next inside =>
    rw [if_pos inside] at there
    cases here
    cases there
    exact related
  · cases here

/-- Related arrays as lists. -/
theorem Across.toList (across : Across relation left right) :
    List.Forall₂ relation left.toList right.toList := by
  rw [List.forall₂_iff_get]
  refine ⟨by simpa using across.size, fun index inLeft inRight => ?_⟩
  simp only [Array.length_toList] at inLeft inRight
  exact @Across.each _ _ _ _ _ across index _ _ (by simp [inLeft]) (by simp [inRight])

end Arrays

/-- Values that are the same up to a pairing. A frame-owned struct has one identifier on both sides. -/
inductive Value.Twin (pairs : Pairing) : Value → Value → Prop where
  | nil : Twin pairs .nil .nil
  | bool (value : Bool) : Twin pairs (.bool value) (.bool value)
  | number (value : Float) : Twin pairs (.number value) (.number value)
  | ref {left right : ObjectId} : pairs left right → Twin pairs (.ref left) (.ref right)
  | stack (node : NodeId) : Twin pairs (.stack node) (.stack node)

/-- Prototypes with the same code. -/
structure Prototype.Twin (pairs : Pairing) (left right : Prototype) : Prop where
  name : Option.Rel pairs left.name right.name
  constants : Across (Value.Twin pairs) left.constants right.constants
  rest : right = { left with name := right.name, constants := right.constants }

inductive Object.Twin (pairs : Pairing) : Object → Object → Prop where
  | string (text : Text) : Twin pairs (.string text) (.string text)
  | function {left right : Prototype} : left.Twin pairs right →
      Twin pairs (.function left) (.function right)
  | closure {left right : ObjectId} {upvalues upvalues' : Array (Option ObjectId)} :
      pairs left right → Across (Option.Rel pairs) upvalues upvalues' →
      Twin pairs (.closure left upvalues) (.closure right upvalues')
  | onStack (slot : Nat) : Twin pairs (.cell (.onStack slot)) (.cell (.onStack slot))
  | closed {left right : Value} : left.Twin pairs right →
      Twin pairs (.cell (.closed left)) (.cell (.closed right))
  | record (type : StructId) {fields fields' : Array Value} :
      Across (Value.Twin pairs) fields fields' →
      Twin pairs (.record type fields) (.record type fields')
  | native (native : Native) : Twin pairs (.native native) (.native native)

section Objects

variable {pairs more : Pairing} {left right : Value} {object other : Object} {body body' : Prototype}

theorem relMono {one two : Option ObjectId} (larger : pairs ≤ more) (rel : Option.Rel pairs one two) :
    Option.Rel more one two := by
  cases rel with
  | some related => exact .some (larger _ _ related)
  | none => exact .none

theorem relSwap {one two : Option ObjectId} (rel : Option.Rel pairs one two) :
    Option.Rel pairs.swapped two one := by
  cases rel with
  | some related => exact .some related
  | none => exact .none

theorem Value.Twin.mono (larger : pairs ≤ more) (twin : left.Twin pairs right) :
    left.Twin more right := by
  cases twin with
  | ref paired => exact .ref (larger _ _ paired)
  | nil => exact .nil
  | bool value => exact .bool value
  | number value => exact .number value
  | stack node => exact .stack node

theorem Value.Twin.swap (twin : left.Twin pairs right) : right.Twin pairs.swapped left := by
  cases twin with
  | ref paired => exact .ref paired
  | nil => exact .nil
  | bool value => exact .bool value
  | number value => exact .number value
  | stack node => exact .stack node

theorem Value.Twin.isFalsey (twin : left.Twin pairs right) : right.isFalsey = left.isFalsey := by
  cases twin <;> rfl

theorem Prototype.Twin.mono (larger : pairs ≤ more) (twin : body.Twin pairs body') :
    body.Twin more body' :=
  ⟨relMono larger twin.name, twin.constants.mono fun _ _ => Value.Twin.mono larger, twin.rest⟩

theorem Prototype.Twin.swap (twin : body.Twin pairs body') : body'.Twin pairs.swapped body := by
  refine ⟨relSwap twin.name, twin.constants.swap.mono fun _ _ => Value.Twin.swap, ?_⟩
  have rest := twin.rest
  cases body
  cases body'
  simp_all

theorem Prototype.Twin.code (twin : body.Twin pairs body') : body'.code = body.code := by
  rw [twin.rest]

theorem Prototype.Twin.arity (twin : body.Twin pairs body') : body'.arity = body.arity := by
  rw [twin.rest]

theorem Prototype.Twin.layouts (twin : body.Twin pairs body') : body'.layouts = body.layouts := by
  rw [twin.rest]

theorem Prototype.Twin.captures (twin : body.Twin pairs body') : body'.captures = body.captures := by
  rw [twin.rest]

theorem Prototype.Twin.constant? (twin : body.Twin pairs body') (index : Int)
    (here : body.constant? index = some left) (there : body'.constant? index = some right) :
    left.Twin pairs right := by
  unfold Prototype.constant? at here there
  split at here
  · cases here
  · next inside =>
    rw [if_neg inside] at there
    exact twin.constants.each here there

theorem Object.Twin.mono (larger : pairs ≤ more) (twin : object.Twin pairs other) :
    object.Twin more other := by
  cases twin with
  | string text => exact .string text
  | function body => exact .function (body.mono larger)
  | closure paired upvalues =>
    exact .closure (larger _ _ paired) (upvalues.mono fun _ _ => relMono larger)
  | onStack slot => exact .onStack slot
  | closed value => exact .closed (value.mono larger)
  | record type fields => exact .record type (fields.mono fun _ _ => Value.Twin.mono larger)
  | native native => exact .native native

theorem Object.Twin.swap (twin : object.Twin pairs other) : other.Twin pairs.swapped object := by
  cases twin with
  | string text => exact .string text
  | function body => exact .function body.swap
  | closure paired upvalues => exact .closure paired (upvalues.swap.mono fun _ _ => relSwap)
  | onStack slot => exact .onStack slot
  | closed value => exact .closed value.swap
  | record type fields => exact .record type (fields.swap.mono fun _ _ => Value.Twin.swap)
  | native native => exact .native native

/-- A string has no other twin than itself. -/
theorem Object.Twin.of_string {text : Text} (twin : (Object.string text).Twin pairs other) :
    other = .string text := by
  cases twin
  rfl

end Objects

namespace Heap

/-- If anything stands under the identifier, it is a string. -/
def Loose (heap : Heap) (id : ObjectId) : Prop :=
  ∀ object, heap.get? id = some object → ∃ text, object = .string text

/-- Tidy heaps that hold the same objects under paired identifiers. -/
structure Twin (pairs : Pairing) (left right : Heap) : Prop where
  tidy : left.Tidy
  tidy' : right.Tidy
  bounded : ∀ {a b : ObjectId}, pairs a b → a < left.nextId ∧ b < right.nextId
  alike : ∀ {a b : ObjectId} {object other : Object}, pairs a b → left.get? a = some object →
    right.get? b = some other → object.Twin pairs other
  single : ∀ {a b c : ObjectId}, pairs a b → pairs a c → b = c ∨ left.Loose a
  single' : ∀ {a b c : ObjectId}, pairs a c → pairs b c → a = b ∨ right.Loose c

/-- A heap without some of its objects. -/
structure Thins (before after : Heap) : Prop where
  tidy : before.Tidy → after.Tidy
  next : after.nextId = before.nextId
  kept : ∀ {id : ObjectId} {object : Object}, after.get? id = some object →
    before.get? id = some object

/-- A heap with a new object. -/
structure Gains (before after : Heap) (object : Object) : Prop where
  tidy : after.Tidy
  next : after.nextId = before.nextId + 1
  get? : ∀ id, after.get? id = if before.nextId = id then some object else before.get? id

/-- A heap with another object in the place of one that is no string, if that one is there. -/
structure Alters (before after : Heap) (target : ObjectId) (object : Object) : Prop where
  tidy : after.Tidy
  next : after.nextId = before.nextId
  plain : ∀ text, before.get? target ≠ some (.string text)
  get? : ∀ id, after.get? id
    = if target = id then (before.get? id).map fun _ => object else before.get? id

/-- Identifiers in use do not come to stand for a string. -/
structure Older (before after : Heap) : Prop where
  next : before.nextId ≤ after.nextId
  string : ∀ {id : ObjectId} {text : Text}, id < before.nextId →
    after.get? id = some (.string text) → before.get? id = some (.string text)

section Changes

variable {heap before after : Heap} {object : Object} {id : ObjectId}

theorem Thins.refl (heap : Heap) : Thins heap heap :=
  ⟨fun tidy => tidy, rfl, fun present => present⟩

theorem Thins.trans {first second third : Heap} (one : Thins first second)
    (two : Thins second third) : Thins first third :=
  ⟨fun tidy => two.tidy (one.tidy tidy), two.next.trans one.next,
    fun present => one.kept (two.kept present)⟩

theorem Thins.of_same {other : Heap} (objects : other.objects = heap.objects)
    (next : other.nextId = heap.nextId) (interned : other.interned = heap.interned) :
    Thins heap other where
  tidy tidy := tidy.of_same objects next interned
  next := next
  kept present := by rwa [Heap.get?, objects] at present

theorem thins_collect (heap : Heap) (roots : List ObjectId) : Thins heap (heap.collect roots) :=
  ⟨fun tidy => tidy.collect roots, collect_nextId, fun present => (get?_collect.mp present).1⟩

theorem thins_prepared (heap : Heap) (roots : Unit → List ObjectId) (bytes : UInt64) :
    Thins heap (heap.prepared roots bytes) :=
  ⟨fun tidy => tidy.prepared roots bytes, prepared_nextId heap roots bytes, get?_of_prepared⟩

theorem gains_link (tidy : heap.Tidy) (plain : ∀ text, object ≠ .string text) :
    Gains heap (heap.link object) object :=
  ⟨tidy.link plain, rfl, get?_link heap object⟩

theorem gains_file (tidy : heap.Tidy) {text : Text} (new : heap.interned[text]? = none) :
    Gains heap (heap.file text) (.string text) :=
  ⟨tidy.intern new, rfl, get?_file heap text⟩

theorem alters_set (tidy : heap.Tidy) (plain : ∀ text, object ≠ .string text)
    (before : ∀ text, heap.get? id ≠ some (.string text)) :
    Alters heap (heap.set id object) id object :=
  ⟨tidy.set plain before, rfl, before, fun other => get?_set heap id other object⟩

theorem alters_absent (tidy : heap.Tidy) (absent : heap.get? id = none) (object : Object) :
    Alters heap heap id object where
  tidy := tidy
  next := rfl
  plain := by simp [absent]
  get? other := by
    split
    · next same => simp [← same, absent]
    · rfl

theorem Older.refl (heap : Heap) : Older heap heap :=
  ⟨Nat.le_refl _, fun _ present => present⟩

theorem Older.trans {first second third : Heap} (one : Older first second)
    (two : Older second third) : Older first third :=
  ⟨Nat.le_trans one.next two.next, fun below present =>
    one.string below (two.string (Nat.lt_of_lt_of_le below one.next) present)⟩

theorem Thins.older (thins : Thins before after) : Older before after :=
  ⟨Nat.le_of_eq thins.next.symm, fun _ present => thins.kept present⟩

theorem Gains.older (gains : Gains before after object) : Older before after := by
  refine ⟨by rw [gains.next]; exact Nat.le_succ _, fun below present => ?_⟩
  rw [gains.get?, if_neg (Nat.ne_of_gt below)] at present
  exact present

theorem Alters.older (alters : Alters before after id object)
    (plain : ∀ text, object ≠ .string text) : Older before after := by
  refine ⟨Nat.le_of_eq alters.next.symm, fun {other text} _ present => ?_⟩
  rw [alters.get?] at present
  split at present
  · obtain ⟨old, _, same⟩ := Option.map_eq_some_iff.mp present
    exact absurd same (plain text)
  · exact present

theorem Older.plain (older : Older before after) (below : id < before.nextId)
    (plain : ∀ text, before.get? id ≠ some (.string text)) :
    ∀ text, after.get? id ≠ some (.string text) :=
  fun text present => plain text (older.string below present)

theorem Loose.thin (loose : before.Loose id) (thins : Thins before after) : after.Loose id :=
  fun object present => loose object (thins.kept present)

theorem Loose.gain (loose : before.Loose id) (gains : Gains before after object)
    (below : id < before.nextId) : after.Loose id := by
  intro other present
  rw [gains.get?, if_neg (Nat.ne_of_gt below)] at present
  exact loose other present

theorem Loose.alter {target : ObjectId} (loose : before.Loose id)
    (alters : Alters before after target object) : after.Loose id := by
  intro other present
  rw [alters.get?] at present
  split at present
  · next same =>
    obtain ⟨old, here, _⟩ := Option.map_eq_some_iff.mp present
    obtain ⟨text, rfl⟩ := loose old here
    exact absurd (same ▸ here) (alters.plain text)
  · exact loose other present

theorem loose_of_string {text : Text} (present : heap.get? id = some (.string text)) :
    heap.Loose id := by
  intro object here
  rw [present] at here
  exact ⟨text, (Option.some.inj here).symm⟩

end Changes

section Twins

variable {pairs : Pairing} {left right left' right' : Heap} {a b c : ObjectId}
  {object other : Object}

theorem Twin.swap (twin : Twin pairs left right) : Twin pairs.swapped right left where
  tidy := twin.tidy'
  tidy' := twin.tidy
  bounded paired := (twin.bounded paired).symm
  alike paired here there := (twin.alike paired there here).swap
  single one two := twin.single' one two
  single' one two := twin.single one two

/-- Two objects that stand for the same one are the same. -/
theorem Twin.unique (twin : Twin pairs left right) (one : pairs a b) (two : pairs a c)
    (here : (left.get? a).isSome) (there : (right.get? b).isSome) (there' : (right.get? c).isSome) :
    b = c := by
  rcases twin.single one two with same | loose
  · exact same
  · obtain ⟨object, present⟩ := Option.isSome_iff_exists.mp here
    obtain ⟨other, found⟩ := Option.isSome_iff_exists.mp there
    obtain ⟨other', found'⟩ := Option.isSome_iff_exists.mp there'
    obtain ⟨text, rfl⟩ := loose object present
    rw [(twin.alike one present found).of_string] at found
    rw [(twin.alike two present found').of_string] at found'
    have filed := twin.tidy'.filed.mpr found
    rw [twin.tidy'.filed.mpr found'] at filed
    exact (Option.some.inj filed).symm

/-- Among objects that are there, a pairing is one to one. -/
theorem Twin.eq_iff {a' b' : ObjectId} (twin : Twin pairs left right) (one : pairs a b)
    (two : pairs a' b') (here : (left.get? a).isSome) (here' : (left.get? a').isSome)
    (there : (right.get? b).isSome) (there' : (right.get? b').isSome) : a = a' ↔ b = b' := by
  constructor
  · rintro rfl
    exact twin.unique one two here there there'
  · rintro rfl
    exact twin.swap.unique one two there here here'

theorem Twin.thin (twin : Twin pairs left right) (thins : Thins left left')
    (thins' : Thins right right') : Twin pairs left' right' where
  tidy := thins.tidy twin.tidy
  tidy' := thins'.tidy twin.tidy'
  bounded paired := by
    rw [thins.next, thins'.next]
    exact twin.bounded paired
  alike paired here there := twin.alike paired (thins.kept here) (thins'.kept there)
  single one two := (twin.single one two).imp_right fun loose => loose.thin thins
  single' one two := (twin.single' one two).imp_right fun loose => loose.thin thins'

/-- A new object on either side. -/
theorem Twin.gain (twin : Twin pairs left right) (gains : Gains left left' object)
    (gains' : Gains right right' other)
    (alike : object.Twin (pairs.joined left.nextId right.nextId) other) :
    Twin (pairs.joined left.nextId right.nextId) left' right' where
  tidy := gains.tidy
  tidy' := gains'.tidy
  bounded paired := by
    rw [gains.next, gains'.next]
    rcases paired with old | ⟨rfl, rfl⟩
    · exact ⟨Nat.lt_succ_of_lt (twin.bounded old).1, Nat.lt_succ_of_lt (twin.bounded old).2⟩
    · exact ⟨Nat.lt_succ_self _, Nat.lt_succ_self _⟩
  alike paired here there := by
    rw [gains.get?] at here
    rw [gains'.get?] at there
    rcases paired with old | ⟨rfl, rfl⟩
    · rw [if_neg (Nat.ne_of_gt (twin.bounded old).1)] at here
      rw [if_neg (Nat.ne_of_gt (twin.bounded old).2)] at there
      exact (twin.alike old here there).mono Pairing.le_joined
    · rw [if_pos rfl] at here there
      cases here
      cases there
      exact alike
  single := by
    rintro a b c (one | ⟨rfl, rfl⟩) (two | ⟨same, rfl⟩)
    · exact (twin.single one two).imp_right fun loose => loose.gain gains (twin.bounded one).1
    · exact absurd (twin.bounded one).1 (same ▸ Nat.lt_irrefl _)
    · exact absurd (twin.bounded two).1 (Nat.lt_irrefl _)
    · exact Or.inl rfl
  single' := by
    rintro a b c (one | ⟨rfl, rfl⟩) (two | ⟨rfl, same⟩)
    · exact (twin.single' one two).imp_right fun loose => loose.gain gains' (twin.bounded one).2
    · exact absurd (twin.bounded one).2 (same ▸ Nat.lt_irrefl _)
    · exact absurd (twin.bounded two).2 (Nat.lt_irrefl _)
    · exact Or.inl rfl

/-- A string that is there on both sides may as well be paired. -/
theorem Twin.join (twin : Twin pairs left right) {text : Text}
    (here : left.get? a = some (.string text)) (there : right.get? b = some (.string text)) :
    Twin (pairs.joined a b) left right where
  tidy := twin.tidy
  tidy' := twin.tidy'
  bounded paired := by
    rcases paired with old | ⟨rfl, rfl⟩
    · exact twin.bounded old
    · exact ⟨twin.tidy.bounded here, twin.tidy'.bounded there⟩
  alike paired isHere isThere := by
    rcases paired with old | ⟨rfl, rfl⟩
    · exact (twin.alike old isHere isThere).mono Pairing.le_joined
    · rw [here] at isHere
      rw [there] at isThere
      cases isHere
      cases isThere
      exact .string text
  single := by
    rintro x y z (one | ⟨rfl, rfl⟩) (two | ⟨same, rfl⟩)
    · exact twin.single one two
    · exact Or.inr (same ▸ loose_of_string here)
    · exact Or.inr (loose_of_string here)
    · exact Or.inl rfl
  single' := by
    rintro x y z (one | ⟨rfl, rfl⟩) (two | ⟨rfl, same⟩)
    · exact twin.single' one two
    · exact Or.inr (same ▸ loose_of_string there)
    · exact Or.inr (loose_of_string there)
    · exact Or.inl rfl

/-- A string that one side has lost and makes anew is paired with the one that the other has kept. -/
theorem Twin.gain_left (twin : Twin pairs left right) {text : Text}
    (gains : Gains left left' (.string text)) (there : right.get? b = some (.string text)) :
    Twin (pairs.joined left.nextId b) left' right := by
  have wider : Twin pairs left' right :=
    { tidy := gains.tidy
      tidy' := twin.tidy'
      bounded := fun paired => by
        rw [gains.next]
        exact ⟨Nat.lt_succ_of_lt (twin.bounded paired).1, (twin.bounded paired).2⟩
      alike := fun paired here there => by
        rw [gains.get?, if_neg (Nat.ne_of_gt (twin.bounded paired).1)] at here
        exact twin.alike paired here there
      single := fun one two =>
        (twin.single one two).imp_right fun loose => loose.gain gains (twin.bounded one).1
      single' := twin.single' }
  have here : left'.get? left.nextId = some (.string text) := by
    rw [gains.get?, if_pos rfl]
  exact wider.join here there

/-- Paired objects, as far as both are there, are replaced by twins of each other. -/
theorem Twin.alter (twin : Twin pairs left right) (paired : pairs a b)
    (alters : Alters left left' a object) (alters' : Alters right right' b other)
    (alike : (left.get? a).isSome → (right.get? b).isSome → object.Twin pairs other) :
    Twin pairs left' right' where
  tidy := alters.tidy
  tidy' := alters'.tidy
  bounded joined := by
    rw [alters.next, alters'.next]
    exact twin.bounded joined
  alike {x y _ _} joined here there := by
    rw [alters.get?] at here
    rw [alters'.get?] at there
    split at here
    · next sameLeft =>
      subst sameLeft
      obtain ⟨old, isOld, rfl⟩ := Option.map_eq_some_iff.mp here
      split at there
      · next sameRight =>
        subst sameRight
        obtain ⟨_, isOld', rfl⟩ := Option.map_eq_some_iff.mp there
        exact alike (by rw [isOld]; rfl) (by rw [isOld']; rfl)
      · next apart =>
        rcases twin.single paired joined with same | loose
        · exact absurd same apart
        · obtain ⟨text, rfl⟩ := loose old isOld
          exact absurd isOld (alters.plain text)
    · next apart =>
      split at there
      · next sameRight =>
        subst sameRight
        obtain ⟨old, isOld, rfl⟩ := Option.map_eq_some_iff.mp there
        rcases twin.single' paired joined with same | loose
        · exact absurd same apart
        · obtain ⟨text, rfl⟩ := loose old isOld
          exact absurd isOld (alters'.plain text)
      · exact twin.alike joined here there
  single one two := (twin.single one two).imp_right fun loose => loose.alter alters
  single' one two := (twin.single' one two).imp_right fun loose => loose.alter alters'

end Twins

/-- Twins that have gone on. What was paired stays paired. -/
structure Goes (pairs : Pairing) (left right : Heap) (pairs' : Pairing) (left' right' : Heap) :
    Prop where
  larger : pairs ≤ pairs'
  twin : Twin pairs' left' right'
  older : Older left left'
  older' : Older right right'

section Requests

variable {pairs pairs' pairs'' : Pairing} {left right left' right' left'' right'' : Heap}
  {a b : ObjectId} {object other : Object} {roots roots' : Unit → List ObjectId}

theorem Twin.goes (twin : Twin pairs left right) : Goes pairs left right pairs left right :=
  ⟨le_rfl, twin, Older.refl left, Older.refl right⟩

theorem Goes.trans (one : Goes pairs left right pairs' left' right')
    (two : Goes pairs' left' right' pairs'' left'' right'') :
    Goes pairs left right pairs'' left'' right'' :=
  ⟨one.larger.trans two.larger, two.twin, one.older.trans two.older, one.older'.trans two.older'⟩

theorem Twin.thinned (twin : Twin pairs left right) (thins : Thins left left')
    (thins' : Thins right right') : Goes pairs left right pairs left' right' :=
  ⟨le_rfl, twin.thin thins thins', thins.older, thins'.older⟩

theorem Twin.altered (twin : Twin pairs left right) (paired : pairs a b)
    (alters : Alters left left' a object) (alters' : Alters right right' b other)
    (alike : (left.get? a).isSome → (right.get? b).isSome → object.Twin pairs other)
    (plain : ∀ text, object ≠ .string text) (plain' : ∀ text, other ≠ .string text) :
    Goes pairs left right pairs left' right' :=
  ⟨le_rfl, twin.alter paired alters alters' alike, alters.older plain, alters'.older plain'⟩

theorem allocate_ok (made : allocate roots object left = .ok a left') :
    ∃ ready, Thins left ready ∧ a = ready.nextId ∧ left' = ready.link object := by
  rw [allocate_eq] at made
  dsimp only at made
  split at made
  · cases made
  · cases made
    exact ⟨_, thins_prepared left roots _, rfl, rfl⟩

theorem get?_of_allocate (made : allocate roots object left = .ok a left') :
    left'.get? a = some object := by
  obtain ⟨ready, _, rfl, rfl⟩ := allocate_ok made
  rw [get?_link, if_pos rfl]

theorem reserve_ok {bytes : UInt64} (made : reserve roots bytes left = .ok () left') :
    Thins left left' := by
  rw [reserve_eq] at made
  dsimp only at made
  split at made
  · cases made
  · cases made
    exact (thins_prepared left roots bytes).trans (.of_same rfl rfl rfl)

/-- Twins of objects are allocated. -/
theorem Twin.allocated (twin : Twin pairs left right) (plain : ∀ text, object ≠ .string text)
    (plain' : ∀ text, other ≠ .string text) (alike : object.Twin pairs other)
    (made : allocate roots object left = .ok a left')
    (made' : allocate roots' other right = .ok b right') :
    ∃ pairs', Goes pairs left right pairs' left' right' ∧ pairs' a b := by
  obtain ⟨ready, thins, rfl, rfl⟩ := allocate_ok made
  obtain ⟨ready', thins', rfl, rfl⟩ := allocate_ok made'
  have thinned := twin.thin thins thins'
  have gains := gains_link thinned.tidy plain
  have gains' := gains_link thinned.tidy' plain'
  exact ⟨_, ⟨Pairing.le_joined, thinned.gain gains gains' (alike.mono Pairing.le_joined),
    thins.older.trans gains.older, thins'.older.trans gains'.older⟩, Pairing.joined_new⟩

/-- A string is found, or it is made and filed. -/
theorem intern_ok {text : Text} (made : intern roots text left = .ok a left') :
    (left' = left ∧ left.interned[text]? = some a) ∨
      ∃ ready, Thins left ready ∧ ready.interned[text]? = none ∧ a = ready.nextId ∧
        left' = ready.file text := by
  cases filed : left.interned[text]? with
  | some id =>
    rw [intern_of_filed roots filed] at made
    cases made
    exact Or.inl ⟨rfl, rfl⟩
  | none =>
    rw [intern_of_unfiled roots filed] at made
    dsimp only at made
    split at made
    · cases made
    · cases made
      exact Or.inr ⟨_, thins_prepared left roots _, prepared_unfiled roots filed _, rfl, rfl⟩

theorem get?_of_intern (tidy : left.Tidy) {text : Text} (made : intern roots text left = .ok a left') :
    left'.get? a = some (.string text) := by
  rcases intern_ok made with ⟨rfl, filed⟩ | ⟨ready, _, _, rfl, rfl⟩
  · exact tidy.filed.mp filed
  · rw [get?_file, if_pos rfl]

/-- A string is interned on both sides, whichever side had it already. -/
theorem Twin.interned (twin : Twin pairs left right) {text : Text}
    (made : intern roots text left = .ok a left') (made' : intern roots' text right = .ok b right') :
    ∃ pairs', Goes pairs left right pairs' left' right' ∧ pairs' a b := by
  rcases intern_ok made with ⟨rfl, filed⟩ | ⟨ready, thins, unfiled, rfl, rfl⟩ <;>
    rcases intern_ok made' with ⟨rfl, filed'⟩ | ⟨ready', thins', unfiled', rfl, rfl⟩
  · exact ⟨_, ⟨Pairing.le_joined, twin.join (twin.tidy.filed.mp filed) (twin.tidy'.filed.mp filed'),
      Older.refl _, Older.refl _⟩, Pairing.joined_new⟩
  · have thinned := twin.thin (Thins.refl left') thins'
    have gains' := gains_file thinned.tidy' unfiled'
    have here := thinned.swap.gain_left gains' (thinned.tidy.filed.mp filed)
    exact ⟨_, ⟨fun _ _ => Or.inl, here.swap, Older.refl _, thins'.older.trans gains'.older⟩,
      Or.inr ⟨rfl, rfl⟩⟩
  · have thinned := twin.thin thins (Thins.refl right')
    have gains := gains_file thinned.tidy unfiled
    exact ⟨_, ⟨Pairing.le_joined, thinned.gain_left gains (thinned.tidy'.filed.mp filed'),
      thins.older.trans gains.older, Older.refl _⟩, Pairing.joined_new⟩
  · have thinned := twin.thin thins thins'
    have gains := gains_file thinned.tidy unfiled
    have gains' := gains_file thinned.tidy' unfiled'
    exact ⟨_, ⟨Pairing.le_joined, thinned.gain gains gains' (.string text),
      thins.older.trans gains.older, thins'.older.trans gains'.older⟩, Pairing.joined_new⟩

end Requests

section Fields

variable {pairs : Pairing} {left right : Heap} {a b : ObjectId}

/-- What a store does to a record. Anything else is not altered by it. -/
theorem alters_setField {heap : Heap} (tidy : heap.Tidy) (id : ObjectId) (slot : Nat)
    (value : Value) :
    (∃ type fields, heap.get? id = some (.record type fields) ∧
        Alters heap (heap.setField id slot value) id
          (.record type (fields.setIfInBounds slot value))) ∨
      (∀ type fields, heap.get? id ≠ some (.record type fields)) ∧
        heap.setField id slot value = heap := by
  unfold setField
  split
  · next type fields here =>
    exact Or.inl ⟨type, fields, here, alters_set tidy (by simp) (by simp [here])⟩
  · next other => exact Or.inr ⟨other, rfl⟩

/-- What setting an upvalue does to a closure. Anything else is not altered by it. -/
theorem alters_setUpvalue {heap : Heap} (tidy : heap.Tidy) (id : ObjectId) (index : Nat)
    (cell : Option ObjectId) :
    (∃ prototype upvalues, heap.get? id = some (.closure prototype upvalues) ∧
        Alters heap (heap.setUpvalue id index cell) id
          (.closure prototype (upvalues.setIfInBounds index cell))) ∨
      (∀ prototype upvalues, heap.get? id ≠ some (.closure prototype upvalues)) ∧
        heap.setUpvalue id index cell = heap := by
  unfold setUpvalue
  split
  · next prototype upvalues here =>
    exact Or.inl ⟨prototype, upvalues, here, alters_set tidy (by simp) (by simp [here])⟩
  · next other => exact Or.inr ⟨other, rfl⟩

theorem Twin.setField (twin : Twin pairs left right) (paired : pairs a b) (slot : Nat)
    {value value' : Value} (same : value.Twin pairs value') :
    Goes pairs left right pairs (left.setField a slot value) (right.setField b slot value') := by
  rcases alters_setField twin.tidy a slot value with ⟨type, fields, here, alters⟩ | ⟨none, unchanged⟩ <;>
    rcases alters_setField twin.tidy' b slot value' with
      ⟨type', fields', there, alters'⟩ | ⟨none', unchanged'⟩
  · refine twin.altered paired alters alters' (fun _ _ => ?_) (by simp) (by simp)
    obtain _ | _ | _ | _ | _ | ⟨_, across⟩ | _ := twin.alike paired here there
    exact .record type (across.set slot same)
  · have absent : right.get? b = none := by
      refine Option.eq_none_iff_forall_ne_some.mpr fun other there => ?_
      obtain _ | _ | _ | _ | _ | ⟨_, across⟩ | _ := twin.alike paired here there
      exact none' _ _ there
    rw [unchanged']
    exact twin.altered paired alters (alters_absent twin.tidy' absent (.native default))
      (fun _ there => by simp [absent] at there) (by simp) (by simp)
  · have absent : left.get? a = Option.none := by
      refine Option.eq_none_iff_forall_ne_some.mpr fun other here => ?_
      obtain _ | _ | _ | _ | _ | ⟨_, across⟩ | _ := twin.alike paired here there
      exact none _ _ here
    rw [unchanged]
    exact twin.altered paired (alters_absent twin.tidy absent (.native default)) alters'
      (fun here _ => by simp [absent] at here) (by simp) (by simp)
  · rw [unchanged, unchanged']
    exact twin.goes

theorem Twin.setUpvalue (twin : Twin pairs left right) (paired : pairs a b) (index : Nat)
    {cell cell' : Option ObjectId} (same : Option.Rel pairs cell cell') :
    Goes pairs left right pairs (left.setUpvalue a index cell) (right.setUpvalue b index cell') := by
  rcases alters_setUpvalue twin.tidy a index cell with
      ⟨prototype, upvalues, here, alters⟩ | ⟨none, unchanged⟩ <;>
    rcases alters_setUpvalue twin.tidy' b index cell' with
      ⟨prototype', upvalues', there, alters'⟩ | ⟨none', unchanged'⟩
  · refine twin.altered paired alters alters' (fun _ _ => ?_) (by simp) (by simp)
    obtain _ | _ | ⟨code, across⟩ | _ | _ | _ | _ := twin.alike paired here there
    exact .closure code (across.set index same)
  · have absent : right.get? b = none := by
      refine Option.eq_none_iff_forall_ne_some.mpr fun other there => ?_
      obtain _ | _ | ⟨code, across⟩ | _ | _ | _ | _ := twin.alike paired here there
      exact none' _ _ there
    rw [unchanged']
    exact twin.altered paired alters (alters_absent twin.tidy' absent (.native default))
      (fun _ there => by simp [absent] at there) (by simp) (by simp)
  · have absent : left.get? a = Option.none := by
      refine Option.eq_none_iff_forall_ne_some.mpr fun other here => ?_
      obtain _ | _ | ⟨code, across⟩ | _ | _ | _ | _ := twin.alike paired here there
      exact none _ _ here
    rw [unchanged]
    exact twin.altered paired (alters_absent twin.tidy absent (.native default)) alters'
      (fun here _ => by simp [absent] at here) (by simp) (by simp)
  · rw [unchanged, unchanged']
    exact twin.goes

/-- A cell on both sides is closed. -/
theorem Twin.setCell (twin : Twin pairs left right) (paired : pairs a b)
    (plain : ∀ text, left.get? a ≠ some (.string text))
    (plain' : ∀ text, right.get? b ≠ some (.string text)) {value value' : Value}
    (same : value.Twin pairs value') :
    Goes pairs left right pairs (left.set a (.cell (.closed value)))
      (right.set b (.cell (.closed value'))) :=
  twin.altered paired (alters_set twin.tidy (by simp) plain)
    (alters_set twin.tidy' (by simp) plain') (fun _ _ => .closed same) (by simp) (by simp)

end Fields

section Lookups

variable {pairs : Pairing} {left right : Heap} {a b : ObjectId}

/-- A string and its twin have the same text. -/
theorem Twin.string? (twin : Twin pairs left right) (paired : pairs a b) {text text' : Text}
    (here : left.string? a = some text) (there : right.string? b = some text') : text' = text := by
  unfold Heap.string? at here there
  split at here
  · next found =>
    split at there
    · next found' =>
      cases here
      cases there
      cases twin.alike paired found found'
      rfl
    · cases there
  · cases here

theorem Twin.prototype? (twin : Twin pairs left right) (paired : pairs a b)
    {body body' : Prototype} (here : left.prototype? a = some body)
    (there : right.prototype? b = some body') : body.Twin pairs body' := by
  unfold Heap.prototype? at here there
  split at here
  · next found =>
    split at there
    · next found' =>
      cases here
      cases there
      obtain _ | same | _ | _ | _ | _ | _ := twin.alike paired found found'
      exact same
    · cases there
  · cases here

theorem Twin.closurePrototype? (twin : Twin pairs left right) (paired : pairs a b)
    {body body' : Prototype} (here : left.closurePrototype? a = some body)
    (there : right.closurePrototype? b = some body') : body.Twin pairs body' := by
  unfold Heap.closurePrototype? at here there
  split at here
  · next found =>
    split at there
    · next found' =>
      obtain _ | _ | ⟨code, _⟩ | _ | _ | _ | _ := twin.alike paired found found'
      exact twin.prototype? code here there
    · cases there
  · cases here

/-- Closures over twins are made on both sides. -/
theorem Twin.newClosure {roots roots' : Unit → List ObjectId} {left' right' : Heap}
    {body body' : Prototype} (twin : Twin pairs left right) (paired : pairs a b)
    (here : left.prototype? a = some body) (there : right.prototype? b = some body')
    {c d : ObjectId} (made : Heap.newClosure roots a left = .ok c left')
    (made' : Heap.newClosure roots' b right = .ok d right') :
    ∃ pairs', Goes pairs left right pairs' left' right' ∧ pairs' c d := by
  rw [newClosure_eq roots here] at made
  rw [newClosure_eq roots' there, (twin.prototype? paired here there).captures] at made'
  exact twin.allocated (by simp) (by simp) (.closure paired (.replicate .none _)) made made'

end Lookups

end Heap

end ScriptMachine
