import Mathlib.Data.List.Forall2
import ScriptMachine.Proofs.Code.Pieces
import ScriptMachine.Proofs.Compiler.Quiet
import ScriptMachine.Proofs.Compiler.Tables
import ScriptMachine.Proofs.Heap.Table

set_option autoImplicit false

/- How a compilation grows. Between two moments of it in the same function, constants, captures and
layouts are only added to, locals only become captured, and the objects that drafts refer to stay
as they are. -/
namespace ScriptMachine

theorem Prototype.mem_references {body : Prototype} {index : Nat} {id : ObjectId}
    (here : body.constants[index]? = some (.ref id)) : id ∈ body.references := by
  refine List.mem_append_right _ (List.mem_filterMap.mpr ⟨.ref id, ?_, rfl⟩)
  exact Array.mem_toList_iff.mpr (Array.mem_of_getElem? here)

@[simp] theorem Prototype.constant?_natCast (body : Prototype) (index : Nat) :
    body.constant? index = body.constants[index]? := by
  rw [constant?, if_neg (by omega), Int.toNat_natCast]

@[simp] theorem Prototype.layout?_natCast (body : Prototype) (index : Nat) :
    body.layout? index = body.layouts[index]? := by
  rw [layout?, if_neg (by omega), Int.toNat_natCast]

namespace Compiler

/-- A local later on: it may have been captured meanwhile. -/
structure Variable.Ages (old new : Variable) : Prop where
  name : new.name = old.name
  depth : new.depth = old.depth
  captured : old.captured = true → new.captured = true

theorem Variable.Ages.refl (found : Variable) : found.Ages found :=
  ⟨rfl, rfl, fun captured => captured⟩

theorem Variable.Ages.trans {first second third : Variable} (one : first.Ages second)
    (two : second.Ages third) : first.Ages third :=
  ⟨two.name.trans one.name, two.depth.trans one.depth,
    fun captured => two.captured (one.captured captured)⟩

theorem related_of_mem {α β : Type} {relation : α → β → Prop} {first : List α} {second : List β}
    (related : List.Forall₂ relation first second) {item : β} (member : item ∈ second) :
    ∃ other ∈ first, relation other item := by
  induction related with
  | nil => cases member
  | cons here _ ih =>
    rcases List.mem_cons.mp member with rfl | inRest
    · exact ⟨_, List.mem_cons_self, here⟩
    · obtain ⟨other, inside, holds⟩ := ih inRest
      exact ⟨other, List.mem_cons_of_mem _ inside, holds⟩

section Aging

variable {first second third : List Variable}

theorem ages_refl (list : List Variable) : List.Forall₂ Variable.Ages list list :=
  List.forall₂_same.mpr fun found _ => .refl found

theorem ages_trans (one : List.Forall₂ Variable.Ages first second)
    (two : List.Forall₂ Variable.Ages second third) : List.Forall₂ Variable.Ages first third := by
  induction one generalizing third with
  | nil => exact two
  | cons ages _ ih =>
    cases two with
    | cons older rest => exact .cons (ages.trans older) (ih rest)

theorem ages_filter (ages : List.Forall₂ Variable.Ages first second) :
    List.Forall₂ Variable.Ages (first.filter fun found => found.depth.isSome)
      (second.filter fun found => found.depth.isSome) := by
  induction ages with
  | nil => exact .nil
  | cons older _ ih =>
    rw [List.filter_cons, List.filter_cons, older.depth]
    split
    · exact .cons older ih
    · exact ih

end Aging

namespace Draft

/-- The locals that can be read. One whose initialiser is being compiled is not among them. -/
def visible (draft : Draft) : List Variable :=
  draft.locals.filter fun found => found.depth.isSome

/-- A draft later on, with some more locals in the same scope. -/
structure Grows (added : Nat) (before after : Draft) : Prop where
  id : after.id = before.id
  kind : after.kind = before.kind
  scopeDepth : after.scopeDepth = before.scopeDepth
  name : after.body.name = before.body.name
  arity : after.body.arity = before.body.arity
  isMethod : after.body.isMethod = before.body.isMethod
  constants : before.body.constants.toList <+: after.body.constants.toList
  captures : before.body.captures.toList <+: after.body.captures.toList
  layouts : before.body.layouts.toList <+: after.body.layouts.toList
  count : added ≤ after.locals.length
  newer : ∀ newest ∈ after.locals.take added, newest.depth = some before.scopeDepth
  older : List.Forall₂ Variable.Ages before.locals (after.locals.drop added)

/-- A draft around the current one: its code waits. -/
structure Waits (before after : Draft) : Prop where
  grows : before.Grows 0 after
  code : after.body.code = before.body.code
  lines : after.body.lines = before.body.lines
  constants : after.body.constants = before.body.constants

theorem Grows.refl (draft : Draft) : draft.Grows 0 draft where
  id := rfl
  kind := rfl
  scopeDepth := rfl
  name := rfl
  arity := rfl
  isMethod := rfl
  constants := List.prefix_refl _
  captures := List.prefix_refl _
  layouts := List.prefix_refl _
  count := Nat.zero_le _
  newer := by simp
  older := ages_refl _

theorem Waits.refl (draft : Draft) : draft.Waits draft :=
  ⟨.refl draft, rfl, rfl, rfl⟩

variable {first second third : Draft} {added more : Nat}

theorem Grows.trans (one : first.Grows added second) (two : second.Grows more third) :
    first.Grows (more + added) third where
  id := two.id.trans one.id
  kind := two.kind.trans one.kind
  scopeDepth := two.scopeDepth.trans one.scopeDepth
  name := two.name.trans one.name
  arity := two.arity.trans one.arity
  isMethod := two.isMethod.trans one.isMethod
  constants := one.constants.trans two.constants
  captures := one.captures.trans two.captures
  layouts := one.layouts.trans two.layouts
  count := by
    have few := one.count
    have room := two.count
    have rest := two.older.length_eq
    rw [List.length_drop] at rest
    omega
  newer := by
    intro newest member
    rw [List.take_add, List.mem_append] at member
    rcases member with late | early
    · rw [two.newer newest late, one.scopeDepth]
    · obtain ⟨old, inside, ages⟩ := related_of_mem (List.forall₂_take added two.older) early
      rw [ages.depth, one.newer old inside]
  older := by
    rw [← List.drop_drop]
    exact ages_trans one.older (List.forall₂_drop added two.older)

theorem Waits.trans (one : first.Waits second) (two : second.Waits third) : first.Waits third :=
  ⟨one.grows.trans two.grows, two.code.trans one.code, two.lines.trans one.lines,
    two.constants.trans one.constants⟩

theorem Grows.atTopLevel (grows : first.Grows added second) :
    second.atTopLevel = first.atTopLevel := by
  rw [Draft.atTopLevel, grows.kind, grows.scopeDepth, Draft.atTopLevel]

theorem Grows.references (grows : first.Grows added second) :
    ∀ id ∈ first.body.references, id ∈ second.body.references := by
  intro id member
  rw [Prototype.references, List.mem_append, List.mem_filterMap] at member ⊢
  rw [grows.name]
  refine member.imp_right ?_
  rintro ⟨value, inside, named⟩
  exact ⟨value, grows.constants.subset inside, named⟩

/-- The newer locals are visible, and come first. -/
theorem Grows.visible_older (grows : first.Grows added second) :
    List.Forall₂ Variable.Ages first.visible (second.visible.drop added) := by
  have split : second.visible.drop added
      = (second.locals.drop added).filter fun found => found.depth.isSome := by
    have front : (second.locals.take added).filter (fun found => found.depth.isSome)
        = second.locals.take added := by
      rw [List.filter_eq_self]
      intro newest member
      rw [grows.newer newest member, Option.isSome_some]
    have length : (second.locals.take added).length = added := by
      rw [List.length_take, Nat.min_eq_left grows.count]
    have whole : second.visible = second.locals.take added
        ++ (second.locals.drop added).filter fun found => found.depth.isSome := by
      rw [Draft.visible, ← front, ← List.filter_append, List.take_append_drop]
    rw [whole]
    exact List.drop_left' length
  rw [split]
  exact ages_filter grows.older

end Draft

section States

/-- The drafts of a compilation, the innermost first. -/
def State.drafts (state : State) : List Draft :=
  state.draft :: state.enclosing

/-- The objects that drafts and staged methods refer to. -/
def State.pool (state : State) : List ObjectId :=
  state.drafts.flatMap (fun draft => draft.body.references)
    ++ state.staged.methods.map fun staged => staged.method.closure

/-- A compilation later on, in the same function. -/
structure Grows (added : Nat) (before after : State) : Prop where
  draft : before.draft.Grows added after.draft
  enclosing : List.Forall₂ Draft.Waits before.enclosing after.enclosing
  heap : ∀ id, Heap.Reaches before.heap.objects before.pool id →
    after.heap.get? id = before.heap.get? id
  structs : ∀ id type, before.struct? id = some type → after.struct? id = some type
  methods : before.staged.methods <+: after.staged.methods
  registry : after.registry = before.registry

variable {first second third : State} {added more : Nat} {id : ObjectId}

theorem waits_trans {one two three : List Draft} (early : List.Forall₂ Draft.Waits one two)
    (late : List.Forall₂ Draft.Waits two three) : List.Forall₂ Draft.Waits one three := by
  induction early generalizing three with
  | nil => exact late
  | cons waits _ ih =>
    cases late with
    | cons later rest => exact .cons (waits.trans later) (ih rest)

theorem Grows.refl (state : State) : Grows 0 state state where
  draft := .refl _
  enclosing := List.forall₂_same.mpr fun draft _ => .refl draft
  heap _ _ := rfl
  structs _ _ known := known
  methods := List.prefix_refl _
  registry := rfl

theorem Grows.pool (grows : Grows added first second) : ∀ id ∈ first.pool, id ∈ second.pool := by
  intro id member
  rw [State.pool, State.drafts, List.flatMap_cons, List.append_assoc, List.mem_append,
    List.mem_append, List.mem_map] at member ⊢
  rcases member with inDraft | inEnclosing | ⟨staged, inside, rfl⟩
  · exact Or.inl (grows.draft.references id inDraft)
  · refine Or.inr (Or.inl ?_)
    obtain ⟨draft, inside, refers⟩ := List.mem_flatMap.mp inEnclosing
    obtain ⟨later, there, waits⟩ := List.Forall₂.flip grows.enclosing |> (related_of_mem · inside)
    exact List.mem_flatMap.mpr ⟨later, there, waits.grows.references id refers⟩
  · exact Or.inr (Or.inr ⟨staged, grows.methods.subset inside, rfl⟩)

theorem Grows.reaches (grows : Grows added first second)
    (reached : Heap.Reaches first.heap.objects first.pool id) :
    Heap.Reaches second.heap.objects second.pool id :=
  reached.transfer grows.heap grows.pool

theorem Grows.trans (one : Grows added first second) (two : Grows more second third) :
    Grows (more + added) first third where
  draft := one.draft.trans two.draft
  enclosing := waits_trans one.enclosing two.enclosing
  heap id reached := (two.heap id (one.reaches reached)).trans (one.heap id reached)
  structs id type known := two.structs id type (one.structs id type known)
  methods := one.methods.trans two.methods
  registry := two.registry.trans one.registry

end States

end Compiler

end ScriptMachine
