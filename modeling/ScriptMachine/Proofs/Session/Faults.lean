import ScriptMachine.Proofs.Session.Sound

set_option autoImplicit false

/- Faults in a session. A unit that a fault stops leaves the session with a machine that executes
nothing, with the globals as the faulting instruction found them. -/
namespace ScriptMachine

namespace Session

open Machine (Fails Stopped Rested)

/-- The machine is left ready for the next unit by a fault in a unit, be it in the steps that the unit
was started with or in later ones. -/
theorem fault_unwinds {session : Session} (reachable : Reachable session) {error : RuntimeError}
    {final : Machine} {steps : Nat} :
    (∀ {source : Text} {machine : Machine} {script : ObjectId},
      session.launched source = some (machine, script) →
      machine.interpret script steps = (.faulted error, final) →
      (∃ before after, Fails script error machine final before after) ∧
        ∃ program, Rested program final) ∧
    (session.machine.run steps = (.faulted error, final) →
      (∃ before after, Stopped error session.machine final before after) ∧
        ∃ program, Rested program final) := by
  refine ⟨fun isLaunched faulted => ?_, fun faulted => ?_⟩
  · obtain ⟨program, live, body, _, lasting, filed, isLive, present, complete⟩ :=
      launches_of_launched reachable.usable reachable.confined.heap isLaunched
    have settles := lasting.interpret isLive present complete steps
    rw [faulted] at settles
    exact ⟨Machine.interpret_fails lasting filed isLive present complete faulted, program,
      settles.rested (by simp)⟩
  · obtain ⟨⟨program, _, sound | rested⟩, poised⟩ := reachable.usable
    · have settles := Machine.run_settles steps sound
      rw [faulted] at settles
      exact ⟨Machine.run_stopped steps sound poised faulted, program, settles.rested (by simp)⟩
    · cases steps with
      | zero => cases faulted
      | succ steps =>
        rw [Machine.run, Machine.step_rested rested] at faulted
        cases faulted

/-- A session on a machine with room for one value only. -/
def cramped : Session :=
  fresh { stackSlots := 1 }

/-- There is room for the script of an empty unit, and none for the nil that it returns. -/
theorem fault_unwinds_cramped : ∃ machine script error final,
    cramped.launched [] = some (machine, script) ∧
      machine.interpret script 1 = (.faulted error, final) ∧
      ∃ before after, Fails script error machine final before after := by
  have scanned : Token.scan [] = [⟨.finish, [], 1, 1⟩] := by
    simp [Token.scan, Token.scanFrom, Token.Position.start]
  obtain ⟨machine, script, error, final, isLaunched, faulted⟩ : ∃ machine script error final,
      cramped.launched [] = some (machine, script) ∧
        machine.interpret script 1 = (.faulted error, final) := by
    simp only [launched, Compiler.compileSource, scanned]
    exact ⟨_, _, _, _, rfl, rfl⟩
  refine ⟨machine, script, error, final, isLaunched, faulted, ?_⟩
  exact ((fault_unwinds (reachable_fresh _)).1 isLaunched faulted).1

end Session

end ScriptMachine
