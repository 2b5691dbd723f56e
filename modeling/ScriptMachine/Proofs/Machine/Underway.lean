import ScriptMachine.Proofs.Code.Room
import ScriptMachine.Proofs.Machine.Standing

set_option autoImplicit false

/- Between two instructions every active call is at a position that control can come to in its
code. -/
namespace ScriptMachine.Machine

variable {free : Licence} {before after machine : Machine} {frame : Frame} {waiting : List Frame}
  {body : Prototype} {code : Instruction} {heap other : Heap}

/-- A frame at a position that control can come to. -/
def Treads (heap : Heap) (frame : Frame) : Prop :=
  ∃ body, Coded heap frame.closure body ∧ body.Visits frame.ip

/-- All active calls are at such positions. -/
def Underway (machine : Machine) : Prop :=
  ∀ frame ∈ machine.standing, Treads machine.heap frame

theorem Treads.recode (treads : Treads heap frame)
    (kept : ∀ {body}, Coded heap frame.closure body → Coded other frame.closure body) :
    Treads other frame := by
  obtain ⟨body, coded, visits⟩ := treads
  exact ⟨body, kept coded, visits⟩

theorem Treads.touches (treads : Treads before.heap frame) (filed : Filed before)
    (touches : Touches free before after) (member : frame ∈ before.standing) :
    Treads after.heap frame :=
  treads.recode fun coded =>
    (filed.standing touches (mem_closures_of_standing member) coded).1

theorem Underway.touches (underway : Underway before) (filed : Filed before)
    (touches : Touches free before after) : Underway after := by
  intro frame member
  rw [(Touches.still touches).calls] at member
  exact (underway frame member).touches filed touches member

theorem standing_fetched :
    (fetched machine frame waiting).standing
      = bare { frame with ip := frame.ip + 1 } :: waiting.map bare := rfl

/-- The instruction that is taken from the code leads on to the next one, if it does not leave. -/
theorem Underway.fetched (underway : Underway machine)
    (atCode : AtCode machine frame waiting body code) (stays : code.op.leaves = false) :
    Underway (fetched machine frame waiting) := by
  have isStanding : machine.standing = bare frame :: waiting.map bare := by
    rw [standing, atCode.frames, List.map_cons]
  intro other member
  rw [standing_fetched] at member
  rcases List.mem_cons.mp member with rfl | older
  · obtain ⟨known, coded, visits⟩ := underway (bare frame) (isStanding ▸ List.mem_cons_self)
    cases coded.code.symm.trans atCode.isBody
    exact ⟨body, coded, visits.edge (.next atCode.here stays)⟩
  · exact underway other (isStanding ▸ List.mem_cons_of_mem _ older)

theorem Underway.executes (underway : Underway machine) (poised : Poised machine)
    (callable : Callable machine) (atCode : AtCode machine frame waiting body code)
    (executes : Executes code (Machine.fetched machine frame waiting) after) : Underway after := by
  have filed := (poised.fetched atCode.frames).filed
  have isStanding : machine.standing = bare frame :: waiting.map bare := by
    rw [standing, atCode.frames, List.map_cons]
  have older : ∀ {free middle}, Touches free (Machine.fetched machine frame waiting) middle →
      ∀ other ∈ waiting.map bare, Treads middle.heap other := by
    intro free middle touches other member
    have treads : Treads (Machine.fetched machine frame waiting).heap other :=
      underway other (isStanding ▸ List.mem_cons_of_mem _ member)
    exact treads.touches filed touches (List.mem_cons_of_mem _ member)
  have onward := @Underway.fetched _ _ _ _ _ underway atCode
  cases executes with
  | stays stays touches => exact (onward stays).touches filed touches
  | @jumps middle isJump touches =>
    have calls : middle.frames.map bare
        = bare { frame with ip := frame.ip + 1 } :: waiting.map bare :=
      (Touches.still touches).calls.trans standing_fetched
    obtain ⟨first, rest, isFrames⟩ := List.exists_cons_of_ne_nil
      (fun empty => by simp [empty] at calls : middle.frames ≠ [])
    rw [isFrames, List.map_cons] at calls
    obtain ⟨isFirst, isRest⟩ := List.cons.inj calls
    intro other member
    change other ∈ (middle.frames.modify 0 _).map bare at member
    rw [isFrames, List.modify_zero_cons, List.map_cons] at member
    rcases List.mem_cons.mp member with rfl | inRest
    · obtain ⟨known, coded, visits⟩ := underway (bare frame) (isStanding ▸ List.mem_cons_self)
      cases coded.code.symm.trans atCode.isBody
      have same : (bare first).closure = frame.closure := by rw [isFirst]; rfl
      refine ⟨body, ?_, visits.edge (.jump atCode.here isJump)⟩
      change Coded middle.heap (bare first).closure body
      rw [same]
      exact (filed.standing touches List.mem_cons_self coded).1
    · rw [isRest] at inRest
      exact older touches other inRest
  | assigns value isSet touches shut =>
    intro other member
    refine ((onward (by rw [isSet]; rfl)).touches filed touches other member).recode fun coded => ?_
    exact coded.set shut value
  | @stores middle _ key _ value isStore first isName second =>
    have stays : code.op.leaves = false := by
      rcases isStore with isStore | isStore <;> rw [isStore] <;> rfl
    have entered : Underway middle := (onward stays).touches filed first
    have stored : Underway { middle with globals := middle.globals.insert key value } := entered
    exact stored.touches ((filed.touches first).store isName value) second
  | calls isCall begins =>
    obtain ⟨base, reached, first, same, isBody, second⟩ := begins
    have stays : code.op.leaves = false := by
      rcases isCall with isCall | isCall <;> rw [isCall] <;> rfl
    have entered := (onward stays).touches filed first
    refine Underway.touches (fun other member => ?_) ((filed.touches first).withFrames _) second
    rcases List.mem_cons.mp member with rfl | inRest
    · rw [roots_fetched atCode.frames] at reached
      exact ⟨_, by rw [same]; exact callable reached isBody, .start⟩
    · exact entered other inRest
  | @returns middle _ isReturn first second =>
    refine Underway.touches (fun other member => ?_) ((filed.touches first).withFrames _) second
    have calls : middle.standing = bare { frame with ip := frame.ip + 1 } :: waiting.map bare :=
      (Touches.still first).calls.trans standing_fetched
    have inRest : other ∈ waiting.map bare := by
      have dropped : (middle.frames.drop 1).map bare = middle.standing.tail := by
        rw [List.drop_one, standing, List.map_tail]
      change other ∈ (middle.frames.drop 1).map bare at member
      rwa [dropped, calls] at member
    exact older first other inRest

theorem Underway.step {program : Program} (underway : Underway machine) (poised : Poised machine)
    (sound : Sound program machine) {progress : Progress}
    (ran : step machine = .ok progress after) : Underway after := by
  obtain ⟨frame, waiting, body, code, atCode⟩ := sound.atCode
  obtain ⟨live, shape, data, _⟩ := sound
  have leads := atCode.leads poised.filed
  rw [Leads, ran] at leads
  exact underway.executes poised data.callable atCode leads

end ScriptMachine.Machine
