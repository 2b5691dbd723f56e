import ScriptMachine.Machine.Step

set_option autoImplicit false

/- Running scripts. -/
namespace ScriptMachine.Machine

/-- How far a run has come. `paused` means that its steps are used up, not that it ended. -/
inductive Outcome where
  | finished
  | faulted (error : RuntimeError)
  | wrong
  | paused

/-- Runs at most `steps` instructions. A fault leaves the machine ready for the next script. -/
def run : (steps : Nat) → Machine → Outcome × Machine
  | 0, machine => (.paused, machine)
  | steps + 1, machine =>
    match step machine with
    | .ok .running machine => run steps machine
    | .ok .finished machine => (.finished, machine)
    | .error (.fault error) machine => (.faulted error, machine.reset)
    | .error .wrong machine => (.wrong, machine.reset)

/-- Puts the call of a script on the empty stack. -/
def enter (script : ObjectId) : Exec Unit := do
  modify reset
  let closure ← allocating [script] (Heap.newClosure · script)
  push (.ref closure)
  callClosure closure 0

/-- Runs a script from its beginning for at most `steps` instructions. -/
def interpret (machine : Machine) (script : ObjectId) (steps : Nat) : Outcome × Machine :=
  match enter script machine with
  | .ok _ machine => run steps machine
  | .error (.fault error) machine => (.faulted error, machine.reset)
  | .error .wrong machine => (.wrong, machine.reset)

/-- Makes a native function known under its name. The name is pinned while the function is
allocated. -/
def defineNative (native : Native) : Exec Unit := do
  let key ← allocating [] (Heap.intern · native.name)
  let id ← allocating [key] (Heap.newNative · native)
  modify fun machine => { machine with natives := machine.natives.insert key id }

end ScriptMachine.Machine
