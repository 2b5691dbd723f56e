import ScriptMachine.Proofs.Session.Sound

set_option autoImplicit false

/- No reference to a frame-owned struct dangles. A value on the operand stack names a struct in the
arena of its own frame or of one further out, and a struct names others only as its children. -/
namespace ScriptMachine

namespace Machine

/-- Frames are listed innermost first, so a frame further out has a higher position. -/
structure Anchored (machine : Machine) : Prop where
  ascending : (machine.frames.map Frame.base).Pairwise (· > ·)
  owned : ∀ {slot : Nat} {node : NodeId}, machine.stack[slot]? = some (.stack node) →
    ∃ position frame struct, machine.frames[position]? = some frame ∧
      machine.frameOwning slot ≤ position ∧
      StackStruct.findAmong? node frame.arena = some struct ∧ machine.node? node = some struct
  nested : ∀ {node inner : NodeId} {struct : StackStruct} {slot : Nat},
    machine.node? node = some struct → struct.field? slot = some (.stack inner) →
    ∃ child, struct.slots[slot]? = some (.nested child) ∧ child.id = inner ∧
      machine.node? inner = some child

section Bases

variable {program : Program} {live : ObjectId → Prop} {captured : List Nat} {calls : List Call}
  {ceiling top : Nat} {shape : Shape} {machine : Machine} {frame : Frame} {call : Call}

/-- A call that waits for another one has something of its own below that one. -/
theorem Stacked.ascending (stacked : Stacked program captured calls ceiling top)
    (waits : ∀ call ∈ calls.tail, 2 ≤ call.height call.ip) :
    (calls.map Call.base).Pairwise (· > ·) := by
  induction stacked with
  | script _ _ => simp
  | @nested call caller calls _ _ _ waiting ih =>
    have below := waits caller List.mem_cons_self
    have level := waiting.stands.level
    refine List.pairwise_cons.mpr ⟨fun base member => ?_, ih fun other member =>
      waits other (List.mem_of_mem_tail member)⟩
    obtain ⟨other, inside, rfl⟩ := List.mem_map.mp member
    have lower := waiting.bases other inside
    omega

/-- The code of a live call leaves room below its calls. -/
theorem Data.spacious (data : Data program live [] shape machine) (proper : Proper program)
    (runs : Runs live machine.heap frame call) : call.body.Spacious := by
  obtain ⟨prototype, upvalues, found, function⟩ := closurePrototype?_eq_some.mp runs.body
  obtain ⟨_, here, sane⟩ := data.stored.sane runs.live
  cases found.symm.trans here
  obtain ⟨_, here', sane'⟩ := data.stored.sane sane.1
  cases function.symm.trans here'
  exact proper.spacious sane'.1

theorem Runs.waits (runs : Runs live machine.heap frame call) (spacious : call.body.Spacious)
    (agrees : call.body.Agrees call.height) (waiting : Waiting machine.heap (bare frame))
    (treads : Treads machine.heap (bare frame)) : 2 ≤ call.height call.ip := by
  obtain ⟨body, code, isBody, positive, here, isCall⟩ := waiting
  obtain ⟨known, coded, visits⟩ := treads
  cases runs.body.symm.trans isBody
  cases runs.body.symm.trans coded.code
  have place : frame.ip - 1 + 1 = call.ip := by
    rw [← runs.ip]
    exact Nat.succ_pred_eq_of_pos positive
  have visits : call.body.Visits call.ip := runs.ip ▸ visits
  rw [← place] at visits ⊢
  exact spacious.two_le agrees here isCall visits

theorem Stacked.agrees (stacked : Stacked program captured calls ceiling top) :
    ∀ call ∈ calls, call.body.Agrees call.height := by
  induction stacked with
  | script _ stands => simpa using stands.balanced.settled
  | nested stands _ ih => exact List.forall_mem_cons.mpr ⟨stands.balanced.settled, ih⟩

theorem map_base {heap : Heap} {frames : List Frame}
    (runs : List.Forall₂ (Runs live heap) frames calls) :
    frames.map Frame.base = calls.map Call.base := by
  induction runs with
  | nil => rfl
  | cons first _ ih => rw [List.map_cons, List.map_cons, first.base, ih]

theorem Usable.ascending (usable : Usable machine) :
    (machine.frames.map Frame.base).Pairwise (· > ·) := by
  obtain ⟨program, proper, sound | rested⟩ := usable.runs
  · obtain ⟨live, shape, data, stacked⟩ := sound
    rw [map_base data.calls]
    refine stacked.ascending fun call member => ?_
    cases isFrames : machine.frames with
    | nil =>
      have none := List.forall₂_nil_left_iff.mp (isFrames ▸ data.calls)
      rw [none] at member
      cases member
    | cons first waiting =>
      obtain ⟨_, others, _, rest, isCalls⟩ := List.forall₂_cons_left_iff.mp (isFrames ▸ data.calls)
      rw [isCalls] at member
      obtain ⟨frame, inside, runs⟩ := frame_of_call rest call member
      have isStanding : machine.standing = bare first :: waiting.map bare := by
        rw [standing, isFrames, List.map_cons]
      have inTail : bare frame ∈ machine.standing.tail := by
        rw [isStanding]
        exact List.mem_map_of_mem inside
      refine runs.waits (data.spacious proper runs) (stacked.agrees call ?_)
        (usable.poised.waits _ inTail) (usable.underway _ (List.mem_of_mem_tail inTail))
      rw [isCalls]
      exact List.mem_cons_of_mem _ member
  · obtain ⟨live, data⟩ := rested
    rw [List.forall₂_nil_right_iff.mp data.calls]
    exact .nil

end Bases

section Structs

variable {program : Program} {live : ObjectId → Prop} {pending : List ObjectId} {shape : Shape}
  {machine : Machine}

/-- The frame that a slot belongs to is the innermost one that starts at or below it. -/
theorem frameOwning_le {slot position : Nat} {frame : Frame}
    (here : machine.frames[position]? = some frame) (below : frame.base ≤ slot) :
    machine.frameOwning slot ≤ position := by
  unfold frameOwning
  cases found : machine.frames.findIdx? fun frame => frame.base ≤ slot with
  | none =>
    have misses := List.findIdx?_eq_none_iff.mp found frame (List.mem_of_getElem? here)
    simp [below] at misses
  | some first =>
    rw [List.findIdx?_eq_some_iff_getElem] at found
    obtain ⟨_, _, least⟩ := found
    rw [Option.getD_some]
    refine Nat.le_of_not_lt fun earlier => ?_
    have misses := least position earlier
    obtain ⟨inside, isFrame⟩ := List.getElem?_eq_some_iff.mp here
    rw [isFrame] at misses
    simp [below] at misses

/-- Data in order and confined structs leave no reference dangling. -/
theorem Data.anchored (data : Data program live pending shape machine) (confined : Confined machine)
    (ascending : (machine.frames.map Frame.base).Pairwise (· > ·)) : Anchored machine := by
  refine ⟨ascending, fun {slot node} here => ?_, fun {node inner struct slot} found field => ?_⟩
  · obtain ⟨struct, owned, _⟩ := data.values here
    have isNode := owned.node? data.unique
    obtain ⟨frame, member, below, inArena⟩ := owned
    obtain ⟨position, place⟩ := List.mem_iff_getElem?.mp member
    exact ⟨position, frame, struct, place, frameOwning_le place below, inArena, isNode⟩
  · obtain ⟨index, owned⟩ := owned_of_node? found
    obtain ⟨contents, inSlots, isValue⟩ := Option.map_eq_some_iff.mp field
    cases contents with
    | nested child =>
      cases isValue
      exact ⟨child, inSlots, rfl, (owned.nested data.unique inSlots).node? data.unique⟩
    | plain value =>
      obtain ⟨frame, member, _, inArena⟩ := owned
      rw [StackStruct.findAmong?_eq] at inArena
      obtain ⟨owner, isOwner, inOwner⟩ := List.exists_of_findSome?_eq_some inArena
      have plain := StackStruct.Plain.find? owner (confined.arenas frame member owner isOwner) inOwner
      have isPlain := ((StackStruct.plain_iff struct).mp plain).1 _ (List.mem_of_getElem? inSlots)
      cases isValue
      cases isPlain

theorem sweepArena_ok {position : Nat} {frame : Frame}
    (here : machine.frames[position]? = some frame) :
    ∃ after, sweepArena position machine = .ok () after := by
  have isGiven : given machine.frames[position]? machine = .ok frame machine := by
    rw [here]
    rfl
  rw [sweepArena]
  change ∃ after, EStateM.bind (given machine.frames[position]?) _ machine = .ok () after
  rw [EStateM.bind, isGiven]
  exact ⟨_, rfl⟩

/-- The arena of any frame can be swept between two instructions. -/
theorem Data.anchored_sweep (data : Data program live [] shape machine) (confined : Confined machine)
    (ascending : (machine.frames.map Frame.base).Pairwise (· > ·)) {position : Nat} {frame : Frame}
    (here : machine.frames[position]? = some frame) :
    ∃ after, sweepArena position machine = .ok () after ∧ Anchored after := by
  have kept := (inferInstance : Keeps Confined (sweepArena position)).left confined
  have safe : Safe program (sweepArena position) machine fun _ after =>
      Data program live [] shape after := safe_sweepArena data here fun _ data' _ _ => data'
  obtain ⟨after, ran⟩ := sweepArena_ok here
  rw [ran] at kept
  rw [Safe, ran] at safe
  refine ⟨after, ran, safe.anchored kept ?_⟩
  rw [map_base safe.calls, ← map_base data.calls]
  exact ascending

end Structs

end Machine

namespace Session

open Machine (Anchored sweepArena)

/-- Between any two instructions of any run, and after a sweep of any arena there, the frames start
at ascending slots, every struct that the operand stack names is owned by the slot's frame or by one
further out, and a struct names others only as its own children. -/
theorem struct_references_anchored {session : Session} (reachable : Reachable session) :
    Anchored session.machine ∧
      ∀ position < session.machine.frames.length,
        ∃ after, sweepArena position session.machine = .ok () after ∧ Anchored after := by
  have usable := reachable.usable
  obtain ⟨program, live, shape, _, data⟩ := usable.data
  refine ⟨data.anchored reachable.confined usable.ascending, fun position inside => ?_⟩
  exact data.anchored_sweep reachable.confined usable.ascending (List.getElem?_eq_getElem inside)

/-- The struct of a variable that a closure captures, in the middle of the run. -/
theorem struct_references_anchored_capturing :
    Anchored ((fresh {}).interpret [] capturing 6).1.machine :=
  (struct_references_anchored (.interpret [] capturing 6 (reachable_fresh {}))).1

end Session

end ScriptMachine
