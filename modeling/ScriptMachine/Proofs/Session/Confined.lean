import ScriptMachine.Proofs.Compiler.Change
import ScriptMachine.Proofs.Machine.Confined
import ScriptMachine.Session

set_option autoImplicit false

/- Frame-owned structs never get into storage that outlives their frame, whatever units a session
runs and however these end. The compiler puts only strings, functions and numbers into constants;
the rest is what `Machine.Confined` says of every run. -/
namespace ScriptMachine

namespace Compiler

/-- Neither the heap nor a function being compiled names a frame-owned struct. -/
structure Sealed (state : State) : Prop where
  heap : state.heap.Plain
  constants : ∀ draft ∈ state.draft :: state.enclosing, ∀ value ∈ draft.body.constants, value.Plain

theorem Sealed.change {before after : State} (change : Change before after)
    (isSealed : Sealed before) : Sealed after := by
  obtain ⟨heap, constants⟩ := isSealed
  have outer : ∀ draft ∈ before.enclosing, ∀ value ∈ draft.body.constants, value.Plain :=
    fun draft member => constants draft (List.mem_cons_of_mem _ member)
  -- Most changes leave heap and constants alone, or the constants of the current draft.
  have sameConstants : ∀ draft : Draft, draft.body.constants = before.draft.body.constants →
      ∀ other ∈ draft :: before.enclosing, ∀ value ∈ other.body.constants, value.Plain := by
    intro draft same other member
    rcases List.mem_cons.mp member with rfl | later
    · rw [same]
      exact constants before.draft List.mem_cons_self
    · exact outer other later
  cases change with
  | report | calm | move | settle | declare => exact ⟨heap, constants⟩
  | function => exact ⟨Keeps.left heap, constants⟩
  | string text => exact ⟨Keeps.left heap, constants⟩
  | closure prototype => exact ⟨Keeps.left heap, constants⟩
  | scope => exact ⟨heap, sameConstants _ rfl⟩
  | body body same => exact ⟨heap, sameConstants _ same⟩
  | constant isPlain =>
    refine ⟨heap, fun draft member other inConstants => ?_⟩
    rcases List.mem_cons.mp member with rfl | later
    · rcases Array.mem_push.mp inConstants with old | rfl
      · exact constants before.draft List.mem_cons_self other old
      · exact isPlain
    · exact outer draft later other inConstants
  | capture name =>
    refine ⟨heap, fun draft member => ?_⟩
    have same := capture_map (fun draft => draft.body.constants) addCapture_constants
      (fun _ _ _ => rfl) name before.draft before.enclosing
    have inList := List.mem_map_of_mem (f := fun draft : Draft => draft.body.constants) member
    rw [same] at inList
    obtain ⟨old, inDrafts, isSame⟩ := List.mem_map.mp inList
    rw [← isSame]
    exact constants old inDrafts
  | enter allocated blank =>
    have left : (stateLeft (Heap.newFunction (fun _ => before.roots) before.heap)).Plain :=
      Keeps.left heap
    rw [allocated] at left
    refine ⟨left, fun other member => ?_⟩
    rcases List.mem_cons.mp member with rfl | later
    · intro value inConstants
      rw [blank] at inConstants
      simp at inConstants
    · exact constants other later
  | leave =>
    refine ⟨heap.set (constants before.draft List.mem_cons_self), fun other member => ?_⟩
    cases around : before.enclosing with
    | nil =>
      rw [around] at member
      exact constants other (List.mem_cons.mpr (Or.inl (by simpa using member)))
    | cons first rest =>
      rw [around] at member
      exact outer other (by rw [around]; simpa using member)

theorem plain_compile {heap : Heap} (isPlain : heap.Plain) (registry : Registry)
    (outside : List ObjectId) (tokens : List Token) :
    (compile heap registry outside tokens).1.Plain := by
  have allocated : (stateLeft (Heap.newFunction (fun _ => outside) heap)).Plain := Keeps.left isPlain
  unfold compile
  split
  · next ran => rwa [ran] at allocated
  · next id after ran =>
    rw [ran] at allocated
    dsimp only
    have starts : Sealed
        { heap := after, registry, outside, cursor := .start tokens
          draft := { id, kind := .script, name := ascii "script", body := {},
                     locals := [{ name := [], depth := some 0 }] } } :=
      ⟨allocated, by simp⟩
    have isSealed := unit_keeps (fun _ _ => Sealed.change) starts (depthFor tokens.length)
    split
    · next state ran =>
      rw [ran] at isSealed
      unfold finish
      split
      · split
        · exact isSealed.heap.set (isSealed.constants _ List.mem_cons_self)
        · exact isSealed.heap
      · exact isSealed.heap
    · next ran =>
      rw [ran] at isSealed
      exact isSealed.heap
    · next ran =>
      rw [ran] at isSealed
      exact isSealed.heap

end Compiler

namespace Session

/-- The sessions that can come about: a new one, and what each operation makes of one. A unit may be
left after any number of instructions, so these are all states at the end of an instruction too. -/
inductive Reachable : Session → Prop where
  | start {options : Options} {journal : Journal} {session : Session} :
      start options journal = .ok session → Reachable session
  | define {session next : Session} {native : Native} : Reachable session →
      session.define native = .ok next → Reachable next
  | interpret {session : Session} (time source : Text) (steps : Nat) : Reachable session →
      Reachable (session.interpret time source steps).1
  | interpretFile {session : Session} (time path : Text) (source : Option Text) (steps : Nat) :
      Reachable session → Reachable (session.interpretFile time path source steps).1
  | resume {session : Session} (time : Text) (steps : Nat) : Reachable session →
      Reachable (session.resume time steps).1
  | collected {session : Session} (time : Text) : Reachable session →
      Reachable (session.collected time)
  | takeOutput {session : Session} : Reachable session → Reachable session.takeOutput.2
  | takeEntries {session : Session} : Reachable session → Reachable session.takeEntries.2

section Operations

variable {session : Session}

open Machine (Confined)

theorem confined_define {next : Session} {native : Native} (confined : Confined session.machine)
    (defined : session.define native = .ok next) : Confined next.machine := by
  have left : Confined (stateLeft (Machine.defineNative native session.machine)) :=
    Keeps.left confined
  unfold define at defined
  split at defined
  all_goals
    next ran =>
      cases defined
      try
        rw [ran] at left
        exact left

theorem confined_drained (confined : Confined session.machine) (time : Text) :
    Confined (session.drained time).machine :=
  confined.withHeap (confined.heap.of_same rfl)

theorem confined_concluded (time : Text) (result : Machine.Outcome × Machine)
    (confined : Confined result.2) : Confined (session.concluded time result).1.machine := by
  obtain ⟨outcome, machine⟩ := result
  cases outcome with
  | finished | faulted _ | paused => exact confined.withHeap (confined.heap.of_same rfl)
  | wrong => exact confined

theorem confined_rejected (confined : Confined session.machine) (time : Text)
    (failure : Compiler.Failure) : Confined (session.rejected time failure).1.machine := by
  cases failure with
  | diagnostics _ | exhausted _ => exact confined_drained confined time
  | diverged | unregistered _ => exact confined

theorem confined_dumped (confined : Confined session.machine) (script : ObjectId) :
    Confined (session.dumped script).machine := by
  unfold dumped
  split
  · split
    · exact ⟨confined.heap, confined.globals, confined.arenas⟩
    · exact confined
  · exact confined

theorem confined_interpret (confined : Confined session.machine) (time source : Text)
    (steps : Nat) : Confined (session.interpret time source steps).1.machine := by
  have compiled := Compiler.plain_compile confined.heap session.machine.registry
    session.machine.roots (Token.scan source)
  unfold Session.interpret Compiler.compileSource
  dsimp only
  generalize Compiler.compile session.machine.heap session.machine.registry session.machine.roots
    (Token.scan source) = result at compiled
  obtain ⟨heap, result⟩ := result
  cases result with
  | error failure =>
    apply confined_rejected
    exact confined.withHeap compiled
  | ok unit =>
    apply confined_concluded
    apply Confined.interpret
    apply confined_dumped
    exact ⟨compiled, confined.globals, confined.arenas⟩

theorem confined_interpretFile (confined : Confined session.machine) (time path : Text)
    (source : Option Text) (steps : Nat) :
    Confined (session.interpretFile time path source steps).1.machine := by
  cases source with
  | none => exact confined_drained confined time
  | some source =>
    apply confined_interpret
    exact confined

end Operations

theorem Reachable.confined {session : Session} (reachable : Reachable session) :
    Machine.Confined session.machine := by
  induction reachable with
  | start started =>
    refine confined_define ⟨Heap.plain_empty _, ?_, ?_⟩ started
    · intro name value found
      simp at found
    · intro frame member
      cases member
  | define _ defined ih => exact confined_define ih defined
  | interpret time source steps _ ih => exact confined_interpret ih time source steps
  | interpretFile time path source steps _ ih =>
    exact confined_interpretFile ih time path source steps
  | resume time steps _ ih => exact confined_concluded time _ (ih.run steps)
  | collected time _ ih =>
    apply confined_drained
    exact ih.withHeap (ih.heap.collect _)
  | takeOutput _ ih => exact ⟨ih.heap, ih.globals, ih.arenas⟩
  | takeEntries _ ih => exact ih

/-- Without a limit there is room for the native function that every session knows. -/
theorem start_unlimited {options : Options} (unlimited : options.heap.limit = 0)
    (journal : Journal) : ∃ session, Session.start options journal = .ok session := by
  have limit : (Heap.empty options.heap).config.limit = 0 := unlimited
  let machine : Machine := { config := options.machine, heap := .empty options.heap }
  obtain ⟨key, named, interned, sameConfig⟩ :=
    Heap.intern_unlimited (fun _ => [] ++ machine.roots) clock.name limit
  obtain ⟨id, after, allocated, _⟩ := Heap.allocate_unlimited
    (fun _ => [key] ++ { machine with heap := named }.roots) (.native clock) (by rw [sameConfig, limit])
  have defined : Machine.defineNative clock machine
      = .ok () { machine with heap := after, natives := machine.natives.insert key id } := by
    simp only [Machine.defineNative, bind, EStateM.bind, Machine.allocating, Heap.newNative]
    rw [interned]
    dsimp only
    rw [allocated]
    rfl
  exact ⟨_, by rw [Session.start, define, defined]⟩

/-- A unit that builds a frame-owned struct and captures it. -/
def capturing : Text :=
  ascii "struct P \x7b x \x7d fn f() \x7b var p = P \x7b x = nil \x7d; return fn() \x7b return p; \x7d; \x7d print f()();"

end Session

end ScriptMachine
