import ScriptMachine.Proofs.Source.Showing

set_option autoImplicit false

/- What it means that a machine keeps track of an evaluation. It comes to where the result is to be
shown, stops with the same fault, or runs on for as long as the evaluation does. At any time its stack
may overflow; the evaluation knows of no such bound. -/
namespace ScriptMachine

namespace Machine

/-- Some instructions lead from one machine to another. -/
inductive Advances : (steps : Nat) → Machine → Machine → Prop where
  | none (machine : Machine) : Advances 0 machine machine
  | more {steps : Nat} {first second last : Machine} : step first = .ok .running second →
      Advances steps second last → Advances (steps + 1) first last

variable {first second last : Machine} {steps more : Nat}

theorem Advances.run (advances : Advances steps first second) (more : Nat) :
    Machine.run (steps + more) first = Machine.run more second := by
  induction advances with
  | none machine => rw [Nat.zero_add]
  | more ran _ ih =>
    rw [Nat.add_right_comm, Machine.run, ran]
    exact ih

theorem Advances.trans (one : Advances steps first second) (two : Advances more second last) :
    Advances (more + steps) first last := by
  induction one with
  | none machine => exact two
  | more ran _ ih => exact .more ran (ih two)

theorem Advances.fewer (advances : Advances steps first last) {fewer : Nat} (small : fewer ≤ steps) :
    ∃ middle, Advances fewer first middle := by
  induction fewer generalizing steps first with
  | zero => exact ⟨first, .none first⟩
  | succ fewer ih =>
    cases advances with
    | none => exact absurd small (Nat.not_succ_le_zero _)
    | more ran rest =>
      obtain ⟨middle, goes⟩ := ih rest (Nat.le_of_succ_le_succ small)
      exact ⟨middle, .more ran goes⟩

/-- What has stopped stays as it is. -/
theorem run_stays {outcome : Outcome} (ran : run steps first = (outcome, last)) (ended : outcome ≠ .paused)
    (more : Nat) : run (steps + more) first = (outcome, last) := by
  induction steps generalizing first with
  | zero =>
    cases ran
    exact absurd rfl ended
  | succ steps ih =>
    rw [Nat.add_right_comm]
    rw [run] at ran ⊢
    split at ran
    · exact ih ran
    · exact ran
    · exact ran
    · exact ran

end Machine

namespace Source

open Machine (Advances Delivers Midway)

section Ends

/-- The stack of a machine overflows. -/
def Overflows (machine : Machine) : Prop :=
  ∃ steps error after, machine.run steps = (.faulted error, after) ∧ error.fault = .stackOverflow

/-- A machine stops with a fault, behind some output. -/
def Faults (fault : Fault) (output : Text) (machine : Machine) : Prop :=
  ∃ steps error after, machine.run steps = (.faulted error, after) ∧ error.fault = fault ∧
    after.output.toList = output

/-- A machine gets somewhere. -/
def Arrives (machine : Machine) (place : Machine → Prop) : Prop :=
  Overflows machine ∨ ∃ steps last, Advances steps machine last ∧ place last

/-- A machine executes at least some number of instructions. -/
def Lasts (steps : Nat) (machine : Machine) : Prop :=
  ∃ last, Advances steps machine last

/-- The next instruction asks for the time or for the state of the heap, or makes a struct that lives in
a call. -/
def Excepts (machine : Machine) : Prop :=
  machine.callsObserver = true ∨
    ∃ site code after, machine.fetch = .ok (site, code) after ∧ code.op = .stackStruct

/-- A machine keeps track of an evaluation with the given result, which may make at most `bound` calls or
rounds of loops. -/
def Tracks (bound : Nat) {α : Type} (place : α → Store → Machine → Prop) (machine : Machine) :
    EStateM.Result Halt Store α → Prop
  | .ok value store => Arrives machine (place value store)
  | .error (.fault fault) store => Overflows machine ∨ Faults fault store.output machine
  | .error .timeout _ => Overflows machine ∨ Lasts bound machine
  | .error .unsupported _ => Arrives machine Excepts

variable {first second last machine : Machine} {steps bound : Nat} {place other : Machine → Prop}
  {α β : Type} {store : Store}

theorem Overflows.behind (advances : Advances steps first second) (overflows : Overflows second) :
    Overflows first := by
  obtain ⟨more, error, after, ran, isFault⟩ := overflows
  exact ⟨steps + more, error, after, (advances.run more).trans ran, isFault⟩

theorem Faults.behind {fault : Fault} {output : Text} (advances : Advances steps first second)
    (faults : Faults fault output second) : Faults fault output first := by
  obtain ⟨more, error, after, ran, facts⟩ := faults
  exact ⟨steps + more, error, after, (advances.run more).trans ran, facts⟩

theorem Arrives.refl (here : place machine) : Arrives machine place :=
  Or.inr ⟨0, machine, .none machine, here⟩

theorem Arrives.behind (advances : Advances steps first second) (arrives : Arrives second place) :
    Arrives first place := by
  obtain overflows | ⟨more, last, goes, here⟩ := arrives
  · exact Or.inl (overflows.behind advances)
  · exact Or.inr ⟨_, last, advances.trans goes, here⟩

theorem Arrives.mono (arrives : Arrives machine place) (implies : ∀ last, place last → other last) :
    Arrives machine other :=
  arrives.imp_right fun ⟨steps, last, goes, here⟩ => ⟨steps, last, goes, implies last here⟩

theorem Arrives.bind (arrives : Arrives machine place)
    (goesOn : ∀ last, place last → Arrives last other) : Arrives machine other := by
  obtain overflows | ⟨steps, last, goes, here⟩ := arrives
  · exact Or.inl overflows
  · exact (goesOn last here).behind goes

theorem Tracks.behind {arrival : α → Store → Machine → Prop} {result : EStateM.Result Halt Store α}
    (advances : Advances steps first second) (tracks : Tracks bound arrival second result) :
    Tracks (bound + steps) arrival first result := by
  unfold Tracks at tracks ⊢
  split at tracks
  · exact tracks.behind advances
  · exact tracks.imp (Overflows.behind advances) (Faults.behind advances)
  · exact tracks.imp (Overflows.behind advances) fun ⟨last, goes⟩ => ⟨last, advances.trans goes⟩
  · exact tracks.behind advances

theorem Tracks.fewer {arrival : α → Store → Machine → Prop} {result : EStateM.Result Halt Store α}
    (tracks : Tracks bound arrival machine result) {fewer : Nat} (small : fewer ≤ bound) :
    Tracks fewer arrival machine result := by
  unfold Tracks at tracks ⊢
  split at tracks
  · exact tracks
  · exact tracks
  · exact tracks.imp_right fun ⟨last, goes⟩ => goes.fewer small
  · exact tracks

theorem Tracks.mono {arrival weaker : α → Store → Machine → Prop}
    {result : EStateM.Result Halt Store α} (tracks : Tracks bound arrival machine result)
    (implies : ∀ value store last, arrival value store last → weaker value store last) :
    Tracks bound weaker machine result := by
  unfold Tracks at tracks ⊢
  split at tracks
  · exact tracks.mono (implies _ _)
  · exact tracks
  · exact tracks
  · exact tracks

/-- A machine that gets to where it keeps track has kept track all along. -/
theorem Arrives.tracks {arrival : α → Store → Machine → Prop} {result : EStateM.Result Halt Store α}
    (arrives : Arrives machine place) (goesOn : ∀ last, place last → Tracks bound arrival last result) :
    Tracks bound arrival machine result := by
  obtain overflows | ⟨steps, last, goes, here⟩ := arrives
  · unfold Tracks
    split
    · exact Or.inl overflows
    · exact Or.inl overflows
    · exact Or.inl overflows
    · exact Or.inl overflows
  · exact ((goesOn last here).behind goes).fewer (Nat.le_add_right _ _)

theorem Tracks.bind {action : Eval α} {rest : α → Eval β} {arrival : α → Store → Machine → Prop}
    {arrival' : β → Store → Machine → Prop} (tracks : Tracks bound arrival machine (action store))
    (goesOn : ∀ value store last, arrival value store last →
      Tracks bound arrival' last (rest value store)) :
    Tracks bound arrival' machine ((action >>= rest) store) := by
  change Tracks bound arrival' machine (EStateM.bind action rest store)
  unfold EStateM.bind
  cases ran : action store with
  | ok value after =>
    rw [ran] at tracks
    exact Arrives.tracks tracks fun last here => goesOn _ _ last here
  | error halt after =>
    rw [ran] at tracks
    cases halt with
    | fault fault => exact tracks
    | timeout => exact tracks
    | unsupported => exact tracks

theorem Tracks.map {action : Eval α} {change : α → β} {arrival : α → Store → Machine → Prop}
    {arrival' : β → Store → Machine → Prop} (tracks : Tracks bound arrival machine (action store))
    (goesOn : ∀ value store last, arrival value store last →
      Arrives last (arrival' (change value) store)) :
    Tracks bound arrival' machine ((change <$> action) store) := by
  rw [← bind_pure_comp]
  exact tracks.bind fun value store last here => goesOn value store last here

theorem tracks_pure {value : α} {arrival : α → Store → Machine → Prop} :
    Tracks bound arrival machine ((pure value : Eval α) store)
      = Arrives machine (arrival value store) :=
  rfl

end Ends

end Source

end ScriptMachine
