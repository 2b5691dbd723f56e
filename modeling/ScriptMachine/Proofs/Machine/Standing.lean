import ScriptMachine.Proofs.Machine.Filed

set_option autoImplicit false

/- Where calls stand. While an instruction is executed the active calls keep their code and its name,
and between two instructions every frame but the innermost stands behind the call that it waits
for. -/
namespace ScriptMachine.Machine

variable {free : Licence}

section Entries

variable {before after : Machine} {id : ObjectId} {body : Prototype}

theorem Becomes.function {prototype : Prototype} {new : Object}
    (becomes : Becomes (.function prototype) new) : new = .function prototype := by
  cases becomes with
  | same => rfl
  | refilled refills => cases refills

theorem Becomes.closure {prototype : ObjectId} {upvalues : Array (Option ObjectId)} {new : Object}
    (becomes : Becomes (.closure prototype upvalues) new) :
    ∃ others, new = .closure prototype others := by
  cases becomes with
  | same => exact ⟨upvalues, rfl⟩
  | refilled refills =>
    cases refills
    exact ⟨_, rfl⟩

/-- A name keeps its text. -/
theorem Becomes.string?_eq {heap other : Heap} {old new : Object} (becomes : Becomes old new)
    (present : heap.get? id = some old) (present' : other.get? id = some new) :
    other.string? id = heap.string? id := by
  rw [Heap.string?, Heap.string?, present, present']
  cases becomes with
  | same => rfl
  | refilled refills => cases refills <;> rfl
  | closed => rfl

theorem closurePrototype?_eq_some {heap : Heap} :
    heap.closurePrototype? id = some body ↔ ∃ prototype upvalues,
      heap.get? id = some (.closure prototype upvalues) ∧
        heap.get? prototype = some (.function body) := by
  constructor
  · intro isBody
    unfold Heap.closurePrototype? at isBody
    split at isBody
    · next prototype upvalues found =>
      unfold Heap.prototype? at isBody
      split at isBody
      · next function =>
        cases isBody
        exact ⟨prototype, upvalues, found, function⟩
      · cases isBody
    · cases isBody
  · rintro ⟨prototype, upvalues, found, function⟩
    simp only [Heap.closurePrototype?, found, Heap.prototype?, function]

/-- A closure whose code is there, with its name. -/
structure Coded (heap : Heap) (id : ObjectId) (body : Prototype) : Prop where
  code : heap.closurePrototype? id = some body
  named : ∀ name, body.name = some name → ∃ object, heap.get? name = some object

/-- What is called keeps its code and its name. -/
theorem Filed.coded (filed : Filed before) (touch : Touch free before after)
    (reached : Heap.Reaches before.heap.objects before.roots id) (coded : Coded before.heap id body) :
    Coded after.heap id body ∧ after.heap.displayName body = before.heap.displayName body := by
  obtain ⟨prototype, upvalues, found, function⟩ := closurePrototype?_eq_some.mp coded.code
  have inside := reached.next found List.mem_cons_self
  obtain ⟨_, found', becomes⟩ := filed.reached touch reached found
  obtain ⟨upvalues', rfl⟩ := becomes.closure
  obtain ⟨_, function', becomes'⟩ := filed.reached touch inside function
  rw [becomes'.function] at function'
  have names : ∀ name, body.name = some name → ∃ old new, before.heap.get? name = some old ∧
      after.heap.get? name = some new ∧ Becomes old new := by
    intro name isName
    obtain ⟨old, present⟩ := coded.named name isName
    have named := inside.next function
      (List.mem_append_left _ (by simp [isName]) : name ∈ Object.references (.function body))
    obtain ⟨new, present', becomes⟩ := filed.reached touch named present
    exact ⟨old, new, present, present', becomes⟩
  refine ⟨⟨closurePrototype?_eq_some.mpr ⟨prototype, upvalues', found', function'⟩, ?_⟩, ?_⟩
  · intro name isName
    obtain ⟨_, new, _, present', _⟩ := names name isName
    exact ⟨new, present'⟩
  · unfold Heap.displayName
    split
    · rfl
    · next name isName =>
      obtain ⟨old, new, present, present', becomes⟩ := names name isName
      rw [becomes.string?_eq present present']

end Entries

section Standing

variable {before after : Machine} {id : ObjectId} {body : Prototype}

theorem closures_of_standing (same : after.standing = before.standing) :
    after.frames.map Frame.closure = before.frames.map Frame.closure := by
  have bared : ∀ frames : List Frame,
      frames.map Frame.closure = (frames.map bare).map Frame.closure := by
    intro frames
    rw [List.map_map]
    rfl
  rw [bared after.frames, bared before.frames]
  exact congrArg _ same

/-- The active calls keep their code and their names. -/
theorem Filed.standing (filed : Filed before) (touches : Touches free before after)
    (active : id ∈ before.frames.map Frame.closure) (coded : Coded before.heap id body) :
    Coded after.heap id body ∧ after.heap.displayName body = before.heap.displayName body := by
  induction touches with
  | refl => exact ⟨coded, rfl⟩
  | @tail middle last touches touch ih =>
    obtain ⟨coded', named⟩ := ih
    rw [← closures_of_standing (Touches.still touches).calls] at active
    obtain ⟨frame, member, rfl⟩ := List.mem_map.mp active
    obtain ⟨coded'', named'⟩ := (filed.touches touches).coded touch (.root (mem_roots_of_frame member))
      coded'
    exact ⟨coded'', named'.trans named⟩

end Standing

section Fetching

variable {program : Program} {live : ObjectId → Prop} {pending : List ObjectId} {shape : Shape}
  {machine : Machine} {id : ObjectId} {body : Prototype}

/-- The innermost frame is at an instruction of its code. -/
structure AtCode (machine : Machine) (frame : Frame) (waiting : List Frame) (body : Prototype)
    (code : Instruction) : Prop where
  frames : machine.frames = frame :: waiting
  isBody : machine.heap.closurePrototype? frame.closure = some body
  here : body.code[frame.ip]? = some code
  room : code.op = .return → frame.base < machine.stack.size

/-- The machine when the next instruction has been taken from the code. -/
def fetched (machine : Machine) (frame : Frame) (waiting : List Frame) : Machine :=
  { machine with frames := { frame with ip := frame.ip + 1 } :: waiting }

theorem Sound.atCode (sound : Sound program machine) :
    ∃ frame waiting body code, AtCode machine frame waiting body code := by
  obtain ⟨live, ⟨calls, captured, height⟩, data, stacked⟩ := sound
  cases calls with
  | nil => cases stacked
  | cons call calls =>
    obtain ⟨frame, waiting, runs, _, frames⟩ := List.forall₂_cons_right_iff.mp data.calls
    obtain ⟨code, here⟩ : ∃ code, call.body.code[call.ip]? = some code :=
      ⟨_, Array.getElem?_eq_getElem stacked.stands.inside⟩
    refine ⟨frame, waiting, call.body, code, frames, runs.body, by rw [runs.ip, here],
      fun isReturn => ?_⟩
    have needs := stacked.needs here
    have one : (call.body.effect code).needs = 1 := by simp [Prototype.effect, isReturn]
    have size := data.size
    rw [runs.base]
    dsimp only at size needs
    omega

theorem AtCode.step_eq {frame : Frame} {waiting : List Frame} {code : Instruction}
    (atCode : AtCode machine frame waiting body code) :
    step machine = execute ⟨frame, body⟩ code (fetched machine frame waiting) := by
  simp only [step, fetch, bind, EStateM.bind, atCode.frames, atCode.isBody, atCode.here]
  rfl

/-- Live closures have well-formed code with a name that is there. -/
theorem Data.coded (data : Data program live pending shape machine) (isLive : live id)
    (isBody : machine.heap.closurePrototype? id = some body) :
    Coded machine.heap id body ∧ body.WellFormed program.heap program.registry := by
  obtain ⟨prototype, upvalues, found, function⟩ := closurePrototype?_eq_some.mp isBody
  obtain ⟨_, here, sane⟩ := data.stored.sane isLive
  cases found.symm.trans here
  obtain ⟨_, here', sane'⟩ := data.stored.sane sane.1
  cases function.symm.trans here'
  refine ⟨⟨isBody, fun name isName => ?_⟩, sane'.2.1⟩
  obtain ⟨object, present, _⟩ := data.stored.sane (sane'.2.2.1 name isName)
  exact ⟨object, present⟩

end Fetching

section Waiting

variable {program : Program} {before after machine : Machine} {frame : Frame} {code : Instruction}

/-- A frame that stands behind the call it waits for. -/
def Waiting (heap : Heap) (frame : Frame) : Prop :=
  ∃ body code, heap.closurePrototype? frame.closure = some body ∧ 0 < frame.ip ∧
    body.code[frame.ip - 1]? = some code ∧ (code.op = .call ∨ code.op = .invoke)

/-- All frames but the innermost wait for a call. -/
def Waits (machine : Machine) : Prop :=
  ∀ frame ∈ machine.standing.tail, Waiting machine.heap frame

/-- The code of every active call is there. -/
def Active (machine : Machine) : Prop :=
  ∀ frame ∈ machine.standing, ∃ body, Coded machine.heap frame.closure body

theorem mem_closures_of_standing (member : frame ∈ machine.standing) :
    frame.closure ∈ machine.frames.map Frame.closure := by
  obtain ⟨owner, inside, rfl⟩ := List.mem_map.mp member
  exact List.mem_map.mpr ⟨owner, inside, rfl⟩

theorem Active.touches (filed : Filed before) (touches : Touches free before after)
    (active : Active before) : Active after := by
  intro frame member
  rw [(Touches.still touches).calls] at member
  obtain ⟨body, coded⟩ := active frame member
  exact ⟨body, (filed.standing touches (mem_closures_of_standing member) coded).1⟩

theorem Waiting.touches (filed : Filed before) (touches : Touches free before after)
    (active : Active before) (member : frame ∈ before.standing) (waiting : Waiting before.heap frame) :
    Waiting after.heap frame := by
  obtain ⟨body, coded⟩ := active frame member
  obtain ⟨same, code, isBody, rest⟩ := waiting
  cases coded.code.symm.trans isBody
  have kept := (filed.standing touches (mem_closures_of_standing member) coded).1
  exact ⟨body, code, kept.code, rest⟩

theorem Waits.touches (filed : Filed before) (touches : Touches free before after)
    (active : Active before) (waits : Waits before) : Waits after := by
  intro frame member
  rw [(Touches.still touches).calls] at member
  exact (waits frame member).touches filed touches active (List.mem_of_mem_tail member)

/-- What a machine is like between two instructions, apart from its data. -/
structure Poised (machine : Machine) : Prop where
  filed : Filed machine
  active : Active machine
  waits : Waits machine

theorem Poised.touches (poised : Poised before) (touches : Touches free before after) : Poised after :=
  ⟨poised.filed.touches touches, poised.active.touches poised.filed touches,
    poised.waits.touches poised.filed touches poised.active⟩

theorem Coded.set {id closure : ObjectId} {body : Prototype} (coded : Coded machine.heap closure body)
    {good : Value → Prop} (shut : Shut id good machine) (value : Value) :
    Coded (machine.heap.set id (.cell (.closed value))) closure body := by
  obtain ⟨prototype, upvalues, found, function⟩ := closurePrototype?_eq_some.mp coded.code
  refine ⟨closurePrototype?_eq_some.mpr ⟨prototype, upvalues, ?_, ?_⟩, fun name isName => ?_⟩
  · exact shut.get?_set value found (by simp)
  · exact shut.get?_set value function (by simp)
  · obtain ⟨object, present⟩ := coded.named name isName
    rw [Heap.get?_set]
    split
    · exact ⟨_, by rw [present]; rfl⟩
    · exact ⟨object, present⟩

/-- Frames wait where they waited while the code of every call stays what it is. -/
theorem Poised.recode {heap : Heap} (poised : Poised machine) (filed : Filed { machine with heap })
    (kept : ∀ {closure body}, closure ∈ machine.frames.map Frame.closure →
      Coded machine.heap closure body → Coded heap closure body) :
    Poised { machine with heap } := by
  refine ⟨filed, fun frame member => ?_, fun frame member => ?_⟩
  · obtain ⟨body, coded⟩ := poised.active frame member
    exact ⟨body, kept (mem_closures_of_standing member) coded⟩
  · have active := List.mem_of_mem_tail member
    obtain ⟨body, coded⟩ := poised.active frame active
    obtain ⟨_, code, isBody, rest⟩ := poised.waits frame member
    cases coded.code.symm.trans isBody
    exact ⟨body, code, (kept (mem_closures_of_standing active) coded).code, rest⟩

theorem Poised.returned (poised : Poised machine) :
    Poised { machine with frames := machine.frames.drop 1 } := by
  have dropped : (machine.frames.drop 1).map bare = machine.standing.tail := by
    rw [List.drop_one, standing, List.map_tail]
  refine ⟨poised.filed.withFrames _, fun frame member => ?_, fun frame member => ?_⟩
  · exact poised.active frame (List.mem_of_mem_tail (dropped ▸ member))
  · exact poised.waits frame (dropped ▸ List.mem_of_mem_tail member)

theorem Poised.jumped (poised : Poised machine) (target : Nat) :
    Poised { machine with
      frames := machine.frames.modify 0 fun frame => { frame with ip := target } } := by
  cases isFrames : machine.frames with
  | nil =>
    have same : { machine with frames := ([] : List Frame) } = machine := by
      rw [← isFrames]
    rw [List.modify_nil, same]
    exact poised
  | cons first rest =>
    have isStanding : machine.standing = bare first :: rest.map bare := by
      rw [standing, isFrames, List.map_cons]
    rw [List.modify_zero_cons]
    refine ⟨poised.filed.withFrames _, fun frame member => ?_, fun frame member => ?_⟩
    · rcases List.mem_cons.mp member with rfl | waiting
      · exact poised.active (bare first) (by rw [isStanding]; exact List.mem_cons_self)
      · exact poised.active frame (by rw [isStanding]; exact List.mem_cons_of_mem _ waiting)
    · exact poised.waits frame (by rw [isStanding]; exact member)

/-- What is in use and can be called has its code and its name. -/
def Callable (machine : Machine) : Prop :=
  ∀ {id : ObjectId} {body : Prototype}, Heap.Reaches machine.heap.objects machine.roots id →
    machine.heap.closurePrototype? id = some body → Coded machine.heap id body

/-- An instruction leaves the frames poised. A call leaves its own frame waiting, so that frame has
to stand behind the call. -/
theorem Poised.executes (poised : Poised before) (callable : Callable before)
    (behind : code.op = .call ∨ code.op = .invoke →
      ∀ frame ∈ before.standing.head?, Waiting before.heap frame)
    (executes : Executes code before after) : Poised after := by
  cases executes with
  | stays _ touches => exact poised.touches touches
  | jumps _ touches => exact (poised.touches touches).jumped _
  | assigns value _ touches shut =>
    have middle := poised.touches touches
    exact middle.recode (middle.filed.assign shut value) fun _ coded => coded.set shut value
  | stores value _ first isName second =>
    have middle := poised.touches first
    exact Poised.touches ⟨middle.filed.store isName value, middle.active, middle.waits⟩ second
  | calls isCall begins =>
    obtain ⟨base, reached, first, same, isBody, second⟩ := begins
    refine Poised.touches ⟨(poised.filed.touches first).withFrames _, fun frame member => ?_,
      fun frame member => ?_⟩ second
    · rcases List.mem_cons.mp member with rfl | older
      · exact ⟨_, by rw [same]; exact callable reached isBody⟩
      · exact (poised.touches first).active frame older
    · have older : frame ∈ before.standing := (Touches.still first).calls ▸ member
      change Waiting (Machine.heap _) frame
      rw [same]
      cases isStanding : before.standing with
      | nil =>
        rw [isStanding] at older
        cases older
      | cons head rest =>
        rw [isStanding] at older
        rcases List.mem_cons.mp older with rfl | inRest
        · exact behind isCall frame (by rw [isStanding]; rfl)
        · exact poised.waits frame (by rw [isStanding]; exact inRest)
  | returns _ first second => exact (poised.touches first).returned.touches second

end Waiting

section Live

variable {program : Program} {live : ObjectId → Prop} {pending : List ObjectId} {shape : Shape}
  {machine : Machine} {cells : List (Nat × ObjectId)} {heap : Heap} {id : ObjectId}

/-- A well-formed object names live objects only. -/
theorem Sane.named {object : Object} (sane : Sane program live pending cells heap id object) :
    ∀ other ∈ object.references, live other := by
  have kept : ∀ {value : Value} {other}, value.Kept live → value.object? = some other → live other := by
    intro value other kept isObject
    cases value with
    | ref _ =>
      cases isObject
      exact kept
    | nil | bool _ | number _ | stack _ => cases isObject
  intro other member
  cases object with
  | string _ | native _ => cases member
  | function body =>
    obtain ⟨_, _, name, constants⟩ := sane
    rcases List.mem_append.mp member with isName | inConstants
    · exact name other (by simpa using isName)
    · obtain ⟨value, inside, isRef⟩ := List.mem_filterMap.mp inConstants
      exact kept (constants value (by simpa using inside)) isRef
  | closure prototype upvalues =>
    rcases List.mem_cons.mp member with rfl | inUpvalues
    · exact sane.1
    · obtain ⟨upvalue, inside, isSome⟩ := List.mem_filterMap.mp inUpvalues
      have isCell := sane.2.2 upvalue (by simpa using inside)
      cases isSome
      exact isCell.1
  | cell contents =>
    cases contents with
    | onStack _ => cases member
    | closed value => exact kept sane (by simpa [Object.references] using member)
  | record type fields =>
    obtain ⟨value, inside, isRef⟩ := List.mem_filterMap.mp member
    exact kept (sane.2 value (by simpa using inside)) isRef

/-- All that a machine has in use is live. -/
theorem Data.rooted (data : Data program live pending shape machine) (member : id ∈ machine.roots) :
    live id := by
  simp only [roots, List.mem_append] at member
  rcases member with (((((held | registered) | stacked) | framed) | isGlobal) | isNative) | isCell
  · exact data.held id held
  · exact (data.methods id (data.registry ▸ registered)).1
  · exact data.live_of_stackRoots stacked
  · obtain ⟨frame, inFrames, inside⟩ := List.mem_flatMap.mp framed
    rcases List.mem_cons.mp inside with rfl | inArena
    · obtain ⟨call, _, runs⟩ := call_of_frame data.calls frame inFrames
      exact runs.live
    · obtain ⟨struct, owned, named⟩ := List.mem_flatMap.mp inArena
      have fits := data.fitting struct (List.mem_flatMap.mpr ⟨frame, inFrames, owned⟩)
      exact StackStruct.Fits.references (fun _ kept => kept) struct fits id named
  · obtain ⟨⟨name, value⟩, inTable, inside⟩ := List.mem_flatMap.mp isGlobal
    have found : machine.globals[name]? = some value :=
      Std.TreeMap.mem_toList_iff_getElem?_eq_some.mp inTable
    obtain ⟨isLive, kept⟩ := data.globals found
    rcases List.mem_cons.mp inside with rfl | isValue
    · exact isLive
    · cases value with
      | ref _ =>
        rw [List.mem_singleton.mp isValue]
        exact kept
      | nil | bool _ | number _ | stack _ => cases isValue
  · obtain ⟨⟨name, native⟩, inTable, inside⟩ := List.mem_flatMap.mp isNative
    have found : machine.natives[name]? = some native :=
      Std.TreeMap.mem_toList_iff_getElem?_eq_some.mp inTable
    obtain ⟨liveName, liveNative⟩ := data.natives found
    rcases List.mem_cons.mp inside with rfl | isNative
    · exact liveName
    · rwa [List.mem_singleton.mp isNative]
  · obtain ⟨entry, inside, rfl⟩ := List.mem_map.mp isCell
    exact (data.cells inside).2.1

theorem Data.reached (data : Data program live pending shape machine)
    (reached : Heap.Reaches machine.heap.objects machine.roots id) : live id := by
  refine reached.closed (fun _ member => data.rooted member) fun other object isLive present => ?_
  obtain ⟨_, found, sane⟩ := data.stored.sane isLive
  cases found.symm.trans present
  exact sane.named

theorem Data.callable (data : Data program live pending shape machine) : Callable machine :=
  fun reached isBody => (data.coded (data.reached reached) isBody).1

theorem Data.active (data : Data program live pending shape machine) : Active machine := by
  intro frame member
  obtain ⟨owner, inFrames, rfl⟩ := List.mem_map.mp member
  obtain ⟨call, _, runs⟩ := call_of_frame data.calls owner inFrames
  exact ⟨call.body, (data.coded runs.live runs.body).1⟩

end Live

section Steps

variable {program : Program} {machine after : Machine} {frame : Frame} {waiting : List Frame}
  {body : Prototype} {code : Instruction}

theorem roots_fetched (frames : machine.frames = frame :: waiting) :
    (fetched machine frame waiting).roots = machine.roots := by
  cases machine
  cases frames
  rfl

theorem AtCode.behind (atCode : AtCode machine frame waiting body code)
    (isCall : code.op = .call ∨ code.op = .invoke) :
    Waiting machine.heap (bare { frame with ip := frame.ip + 1 }) :=
  ⟨body, code, atCode.isBody, Nat.succ_pos _, atCode.here, isCall⟩

theorem Poised.fetched (poised : Poised machine) (frames : machine.frames = frame :: waiting) :
    Poised (fetched machine frame waiting) := by
  have isStanding : machine.standing = bare frame :: waiting.map bare := by
    rw [standing, frames, List.map_cons]
  refine ⟨poised.filed.withFrames _, fun other member => ?_, fun other member => ?_⟩
  · rcases List.mem_cons.mp member with rfl | older
    · exact poised.active (bare frame) (by rw [isStanding]; exact List.mem_cons_self)
    · exact poised.active other (by rw [isStanding]; exact List.mem_cons_of_mem _ older)
  · exact poised.waits other (by rw [isStanding]; exact member)

/-- What the next instruction of a sound machine does. -/
theorem AtCode.leads (atCode : AtCode machine frame waiting body code) (filed : Filed machine) :
    Leads step machine (fun _ => Executes code (fetched machine frame waiting))
      (Struck code (fetched machine frame waiting)) := by
  have executes := @leads_execute (fetched machine frame waiting) ⟨frame, body⟩ code filed.tidy
    fun isReturn => Nat.lt_of_lt_of_le (atCode.room isReturn) filed.room
  unfold Leads at executes ⊢
  rw [atCode.step_eq]
  exact executes

theorem Poised.step (poised : Poised machine) (sound : Sound program machine)
    {progress : Progress} (ran : step machine = .ok progress after) : Poised after := by
  obtain ⟨frame, waiting, body, code, atCode⟩ := sound.atCode
  obtain ⟨live, shape, data, _⟩ := sound
  have leads := atCode.leads poised.filed
  rw [Leads, ran] at leads
  refine (poised.fetched atCode.frames).executes (fun reached => ?_) (fun isCall other isFirst => ?_)
    leads
  · rw [roots_fetched atCode.frames] at reached
    exact data.callable reached
  · cases isFirst
    exact atCode.behind isCall

end Steps

end ScriptMachine.Machine
