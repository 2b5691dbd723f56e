import ScriptMachine.Proofs.Machine.Renewal
import ScriptMachine.Proofs.Machine.Unwinding
import ScriptMachine.Proofs.Session.Confined

set_option autoImplicit false

/- Whatever a session goes through, its machine is in the middle of a run of well-formed code, or it
executes nothing and is ready for the next unit. -/
namespace ScriptMachine

section Sources

open Token

/-- String literals are not identifiers. -/
theorem stringBody_kind {source contents text : Text} {count : Nat} {kind : TokenKind}
    (isToken : (stringBody source contents count).meaning = .token kind text) : kind = .string := by
  fun_induction stringBody source contents count with
  | case1 | case3 => cases isToken
  | case2 =>
    cases isToken
    rfl
  | case4 _ _ _ _ ih | case5 _ _ _ _ _ _ _ ih => exact ih isToken

/-- Every identifier of a source has a text. -/
theorem stretch_worded {first : UInt8} {rest text : Text}
    (isToken : (stretch first rest).meaning = .token .identifier text) : text ≠ [] := by
  unfold stretch at isToken
  split at isToken
  · cases isToken
  split at isToken
  · cases isToken
  split at isToken
  · unfold commentStretch at isToken
    split at isToken <;> cases isToken
  split at isToken
  · simp only [Meaning.token.injEq] at isToken
    simp [← isToken.2]
  split at isToken
  · unfold numberStretch at isToken
    dsimp only at isToken
    split at isToken
    · split at isToken <;> cases isToken
    · cases isToken
  split at isToken
  · cases stringBody_kind isToken
  · unfold operatorStretch at isToken
    split at isToken
    · cases isToken
      simp
    · split at isToken
      · split at isToken <;> cases isToken <;> simp
      · cases isToken

theorem scanFrom_worded {position : Position} {source : Text} {tokens : Array Token}
    (worded : ∀ token ∈ tokens, token.kind = .identifier → token.text ≠ []) :
    ∀ token ∈ scanFrom position source tokens, token.kind = .identifier → token.text ≠ [] := by
  fun_induction scanFrom position source tokens with
  | case1 position tokens =>
    intro token member isWord
    rcases Array.mem_push.mp member with old | rfl
    · exact worded token old isWord
    · cases isWord
  | case2 position tokens first rest piece behind more ih =>
    refine ih fun token member isWord => ?_
    unfold more at member
    split at member
    · next new isNew =>
      rcases Array.mem_push.mp member with old | rfl
      · exact worded token old isWord
      · cases meaning : piece.meaning with
        | blank =>
          rw [meaning] at isNew
          cases isNew
        | token kind text =>
          rw [meaning] at isNew
          cases isNew
          cases isWord
          exact stretch_worded meaning
        | defect defect =>
          rw [meaning] at isNew
          cases defect <;> cases isNew <;> cases isWord
    · exact worded token member isWord

theorem worded_scan (source : Text) : (Compiler.Cursor.start (scan source)).Worded := by
  have scanned : ∀ token ∈ scan source, token.kind = .identifier → token.text ≠ [] := by
    intro token member
    refine @scanFrom_worded .start source #[] (by simp) token ?_
    simpa [scan] using member
  have closed : ∀ token ∈ Compiler.Cursor.closed (scan source), token.kind = .identifier →
      token.text ≠ [] := by
    intro token member isWord
    unfold Compiler.Cursor.closed at member
    split at member
    · rw [List.mem_singleton.mp member] at isWord
      cases isWord
    · split at member
      · exact scanned token member isWord
      · rcases List.mem_append.mp member with inside | added
        · exact scanned token inside isWord
        · rw [List.mem_singleton.mp added] at isWord
          cases isWord
  unfold Compiler.Cursor.start Compiler.Cursor.Worded
  intro token member isWord
  split at member
  · next found => exact closed token (by rw [found]; simpa using member) isWord
  · simp at member
    subst member
    cases isWord

end Sources

namespace Machine

/-- A machine that some session has: its code is in order, and it is between two instructions or
executes nothing. -/
structure Usable (machine : Machine) : Prop where
  runs : ∃ program, Proper program ∧ (Sound program machine ∨ Rested program machine)
  poised : Poised machine
  underway : Underway machine

section Uses

variable {program : Program} {live : ObjectId → Prop} {shape : Shape} {machine after : Machine}
  {heap : Heap}

theorem Usable.proper (usable : Usable machine) : ∃ program live shape,
    Proper program ∧ Data program live [] shape machine := by
  obtain ⟨program, proper, sound | rested⟩ := usable.runs
  · obtain ⟨live, shape, data, _⟩ := sound
    exact ⟨program, live, shape, proper, data⟩
  · obtain ⟨live, data⟩ := rested
    exact ⟨program, live, _, proper, data⟩

theorem Usable.data (usable : Usable machine) : ∃ program live shape,
    program.registry.Coherent program.heap ∧ Data program live [] shape machine := by
  obtain ⟨program, live, shape, proper, data⟩ := usable.proper
  exact ⟨program, live, shape, proper.coherent, data⟩

/-- What keeps the data of a machine in order leaves it usable. -/
theorem Usable.follow (usable : Usable machine) (poised : Poised after) (underway : Underway after)
    (follows : ∀ {program live shape}, Data program live [] shape machine →
      ∃ live', Data program live' [] shape after) : Usable after := by
  obtain ⟨program, proper, sound | rested⟩ := usable.runs
  · obtain ⟨live, shape, data, stacked⟩ := sound
    obtain ⟨live', data'⟩ := follows data
    exact ⟨⟨program, proper, Or.inl ⟨live', shape, data', stacked⟩⟩, poised, underway⟩
  · obtain ⟨live, data⟩ := rested
    exact ⟨⟨program, proper, Or.inr (follows data)⟩, poised, underway⟩

/-- So does what only touches it, if it keeps the data in order. -/
theorem Usable.touches (usable : Usable machine) (touches : Touches ⟨True, True⟩ machine after)
    (follows : ∀ {program live shape}, Data program live [] shape machine →
      ∃ live', Data program live' [] shape after) : Usable after :=
  usable.follow (usable.poised.touches touches)
    (usable.underway.touches usable.poised.filed touches) follows

theorem Filed.poised_reset (filed : Filed machine) : Poised machine.reset :=
  ⟨filed.reset, fun _ member => (by cases member), fun _ member => (by cases member)⟩

theorem underway_reset (machine : Machine) : Underway machine.reset :=
  fun _ member => (by cases member)

theorem Usable.reset (usable : Usable machine) : Usable machine.reset := by
  obtain ⟨program, live, shape, proper, data⟩ := usable.proper
  exact ⟨⟨program, proper, Or.inr ⟨live, data.lasting.reset⟩⟩, usable.poised.filed.poised_reset,
    underway_reset machine⟩

/-- The log of collections and the byte counts may change. -/
theorem Usable.recount (usable : Usable machine) (objects : heap.objects = machine.heap.objects)
    (next : heap.nextId = machine.heap.nextId) (interned : heap.interned = machine.heap.interned) :
    Usable { machine with heap } :=
  usable.touches (.single (.recount objects next interned (Or.inr trivial)))
    fun {_ live _} data => ⟨live, data.recount objects next interned⟩

theorem Usable.collect (usable : Usable machine) :
    Usable { machine with heap := machine.heap.collect machine.roots } := by
  refine usable.touches (.single (.collect [])) fun data => ?_
  obtain ⟨live', collected, _⟩ := data.collect []
  exact ⟨live', collected⟩

theorem Usable.print (usable : Usable machine) (output : Array UInt8) :
    Usable { machine with output } := by
  have aside : Touch ⟨True, True⟩ machine { machine with output } :=
    .aside ⟨rfl, rfl, rfl, rfl, rfl, rfl, rfl, rfl, Nat.le_max_left _ _⟩ (Or.inl ⟨rfl, rfl⟩)
  exact usable.touches (.single aside) fun data => ⟨_, { data with }⟩

end Uses

section Natives

variable {program : Program} {live : ObjectId → Prop} {shape : Shape} {machine after : Machine}
  {native : Native} {key id : ObjectId}

/-- A new native function needs room for its name and for itself. -/
theorem defineNative_cases (native : Native) (machine : Machine) :
    (∃ failure trace heap, defineNative native machine
      = .error (.fault ⟨.exhausted failure, trace⟩) { machine with heap }) ∨
    ∃ key named id heap, Heap.intern (fun _ => [] ++ machine.roots) native.name machine.heap
        = .ok key named ∧
      Heap.allocate (fun _ => [key] ++ { machine with heap := named }.roots) (.native native) named
        = .ok id heap ∧
      defineNative native machine
        = .ok () { machine with heap, natives := machine.natives.insert key id } := by
  simp only [defineNative, bind, EStateM.bind, allocating, Heap.newNative]
  cases interned : Heap.intern (fun _ => [] ++ machine.roots) native.name machine.heap with
  | error failure heap => exact Or.inl ⟨failure, _, heap, rfl⟩
  | ok key named =>
    dsimp only
    cases allocated : Heap.allocate (fun _ => [key] ++ { machine with heap := named }.roots)
        (.native native) named with
    | error failure heap => exact Or.inl ⟨failure, _, heap, rfl⟩
    | ok id heap => exact Or.inr ⟨key, named, id, heap, rfl, allocated, rfl⟩

theorem safe_defineNative (data : Data program live [] shape machine) :
    Safe program (defineNative native) machine fun _ after =>
      ∃ live', Data program live' [] shape after := by
  simp only [defineNative, safe_bind]
  refine safe_intern data fun live₁ heap₁ key data₁ isLive => ?_
  refine safe_allocate data₁ (by simp) fun live₂ heap₂ data₂ rooted _ here => ?_
  have enlisted := data₂.enlist here (by trivial)
  refine ⟨_, { enlisted with natives := fun {name other} found => ?_ }⟩
  rw [Std.TreeMap.getElem?_insert] at found
  split at found
  · next same =>
    rw [Std.LawfulEqCmp.compare_eq_iff_eq] at same
    subst same
    cases found
    exact ⟨Or.inl (rooted key List.mem_cons_self isLive), Or.inr rfl⟩
  · exact enlisted.natives found

theorem Filed.insertNative (filed : Filed machine) {text : Text}
    (isString : machine.heap.get? key = some (.string text))
    (isNative : machine.heap.get? id = some (.native native)) :
    Filed { machine with natives := machine.natives.insert key id } := by
  refine { filed with natives := fun {name other} found => ?_ }
  rw [Std.TreeMap.getElem?_insert] at found
  split at found
  · next same =>
    rw [Std.LawfulEqCmp.compare_eq_iff_eq] at same
    subst same
    cases found
    exact ⟨⟨text, isString⟩, native, isNative⟩
  · exact filed.natives found

/-- An interned string is there. -/
theorem get?_interned {heap heap' : Heap} {roots : Unit → List ObjectId} {text : Text}
    (tidy : heap.Tidy) (ran : Heap.intern roots text heap = .ok key heap') :
    heap'.get? key = some (.string text) := by
  cases filed : heap.interned[text]? with
  | some known =>
    rw [Heap.intern_of_filed _ filed] at ran
    cases ran
    exact tidy.filed.mp filed
  | none =>
    rw [Heap.intern_of_unfiled _ filed] at ran
    dsimp only at ran
    split at ran
    · cases ran
    · cases ran
      rw [Heap.get?_file, if_pos rfl]

theorem Usable.define (usable : Usable machine)
    (defined : defineNative native machine = .ok () after) : Usable after := by
  rcases defineNative_cases native machine with ⟨_, _, _, failed⟩ |
    ⟨key, named, id, heap, interned, allocated, isDefined⟩
  · rw [failed] at defined
    cases defined
  cases isDefined.symm.trans defined
  have first := (inferInstance : Touching .none (allocating [] (Heap.intern · native.name))).leads machine
  rw [leads_allocating, interned] at first
  have second := (touching_allocate [key] (by simp) (by simp) :
    Touching .none (allocating [key] (Heap.allocate · (.native native)))).leads { machine with heap := named }
  rw [leads_allocating, allocated] at second
  have poised := usable.poised.touches (first.trans second)
  have underway := usable.underway.touches usable.poised.filed (first.trans second)
  have isString := get?_interned usable.poised.filed.tidy interned
  rw [Heap.allocate_eq] at allocated
  dsimp only at allocated
  split at allocated
  · cases allocated
  cases allocated
  have ready := (usable.poised.filed.touches first).tidy.prepared
    (fun _ => [key] ++ { machine with heap := named }.roots) (Object.native native).size.toUInt64
  have kept : (named.prepared (fun _ => [key] ++ { machine with heap := named }.roots)
      (Object.native native).size.toUInt64).get? key = some (.string native.name) := by
    rw [Heap.get?_prepared_of_reaches (.root (List.mem_cons_self)), isString]
  have filed := poised.filed.insertNative (by rw [Heap.get?_link, if_neg (ready.fresh kept), kept])
    (Heap.get?_link_self _ _)
  refine usable.follow ⟨filed, poised.active, poised.waits⟩ underway fun data => ?_
  have safe := @safe_defineNative _ _ _ _ native data
  rw [Safe, isDefined] at safe
  exact safe

end Natives

section Runs

variable {program : Program} {live : ObjectId → Prop} {machine : Machine} {script : ObjectId}

theorem run_poised (steps : Nat) : ∀ {machine : Machine}, Sound program machine → Poised machine →
    Underway machine → Poised (run steps machine).2 ∧ Underway (run steps machine).2 := by
  induction steps with
  | zero => exact fun _ poised underway => ⟨poised, underway⟩
  | succ steps ih =>
    intro machine sound poised underway
    have safe := safe_step sound
    rw [run]
    cases ran : step machine with
    | ok progress after =>
      rw [Safe, ran] at safe
      have next := poised.step sound ran
      have onward := underway.step poised sound ran
      cases progress with
      | running => exact ih safe next onward
      | finished => exact ⟨next, onward⟩
    | error stop after =>
      rw [Safe, ran] at safe
      cases stop with
      | fault error =>
        obtain ⟨frame, waiting, body, code, atCode⟩ := sound.atCode
        have leads := atCode.leads poised.filed
        rw [Leads, ran] at leads
        exact ⟨((poised.fetched atCode.frames).filed.struck leads.1).poised_reset,
          underway_reset after⟩
      | wrong => exact safe.elim

theorem Outcome.Settles.usable {result : Outcome × Machine} (settles : Outcome.Settles program result)
    (proper : Proper program) (poised : Poised result.2) (underway : Underway result.2) :
    Usable result.2 := by
  refine ⟨⟨program, proper, ?_⟩, poised, underway⟩
  by_cases paused : result.1 = .paused
  · exact Or.inl (settles.running paused)
  · exact Or.inr (settles.rested paused)

/-- Without a call to go on with, a run goes wrong at once. -/
theorem step_rested (rested : Rested program machine) : step machine = .error .wrong machine := by
  obtain ⟨live, data⟩ := rested
  have nothing : machine.frames = [] := List.forall₂_nil_right_iff.mp data.calls
  simp only [step, fetch, bind, EStateM.bind, nothing]

theorem Usable.run (usable : Usable machine) (steps : Nat) : Usable (run steps machine).2 := by
  obtain ⟨program, proper, sound | rested⟩ := usable.runs
  · obtain ⟨poised, underway⟩ := run_poised steps sound usable.poised usable.underway
    exact (run_settles steps sound).usable proper poised underway
  · cases steps with
    | zero => exact usable
    | succ steps =>
      rw [Machine.run, step_rested rested]
      exact usable.reset

theorem interpret_poised (lasting : Lasting program live machine) (filed : Filed machine)
    {body : Prototype} (isLive : live script)
    (present : machine.heap.get? script = some (.function body)) (complete : body.captures = #[])
    (steps : Nat) :
    Poised (interpret machine script steps).2 ∧ Underway (interpret machine script steps).2 := by
  have safe := lasting.enters isLive present complete
  have leads := @leads_enter machine script
  rw [interpret]
  cases entered : enter script machine with
  | ok _ after =>
    rw [Safe, entered] at safe
    rw [Leads, entered] at leads
    have poised := poised_enter safe filed entered
    refine run_poised steps safe poised fun frame member => ?_
    -- the one frame is at the beginning of its code
    obtain ⟨body, coded⟩ := poised.active frame member
    obtain ⟨middle, closure, _, rfl⟩ := leads
    rw [List.mem_singleton.mp member] at coded ⊢
    exact ⟨body, coded, .start⟩
  | error stop after =>
    rw [Safe, entered] at safe
    rw [Leads, entered] at leads
    cases stop with
    | fault error =>
      exact ⟨(filed.reset.touches leads.1).poised_reset, underway_reset after⟩
    | wrong => exact safe.elim

end Runs

section Compiling

variable {machine : Machine} {tokens : List Token} {heap : Heap} {compiled : Compiler.Compiled}

/-- A compilation leaves the machine as usable as it was. -/
theorem Usable.compile (usable : Usable machine) (tokens : List Token) :
    Usable { machine with
      heap := (Compiler.compile machine.heap machine.registry machine.roots tokens).1 } := by
  obtain ⟨_, _, _, _, data⟩ := usable.data
  obtain ⟨retains, tidy⟩ := @Compiler.compile_retains machine.heap machine.roots machine.registry
    tokens data.stored.tidy data.bounded
  exact usable.follow (usable.poised.retained tidy retains Compiler.compile_cells)
    (usable.underway.retained retains) fun data => ⟨_, data.retained tidy retains⟩

/-- A machine that can run the script of a unit. -/
def Launches (machine : Machine) (script : ObjectId) : Prop :=
  ∃ program live body, Proper program ∧ Lasting program live machine ∧
    Filed machine ∧ live script ∧ machine.heap.get? script = some (.function body) ∧
    body.captures = #[]

theorem Usable.launches (usable : Usable machine) (plain : heap.Plain)
    (worded : (Compiler.Cursor.start tokens).Worded)
    (ran : Compiler.compile machine.heap machine.registry machine.roots tokens
      = (heap, .ok compiled)) :
    Launches { machine with heap, registry := compiled.registry } compiled.script := by
  obtain ⟨program, live, shape, proper, data⟩ := usable.proper
  obtain ⟨program', live', after, lasting, isLive, body, present, complete⟩ :=
    data.completed proper plain worded ran
  have filed := (usable.compile tokens).poised.filed
  rw [ran] at filed
  exact ⟨program', live', body, after, lasting, { filed with }, isLive, present, complete⟩

theorem Launches.print {script : ObjectId} (launches : Launches machine script)
    (output : Array UInt8) : Launches { machine with output } script := by
  obtain ⟨program, live, body, proper, lasting, filed, isLive, present, complete⟩ := launches
  exact ⟨program, live, body, proper, { lasting with }, { filed with }, isLive, present, complete⟩

theorem Launches.interpret {script : ObjectId} (launches : Launches machine script) (steps : Nat) :
    Usable (machine.interpret script steps).2 ∧ (machine.interpret script steps).1 ≠ .wrong := by
  obtain ⟨program, live, body, proper, lasting, filed, isLive, present, complete⟩ := launches
  have settles := lasting.interpret isLive present complete steps
  obtain ⟨poised, underway⟩ := interpret_poised lasting filed isLive present complete steps
  exact ⟨settles.usable proper poised underway, settles.right⟩

end Compiling

end Machine

namespace Session

open Machine (Usable Launches)

variable {session : Session}

section Operations

theorem usable_drained (usable : Usable session.machine) (time : Text) :
    Usable (session.drained time).machine :=
  usable.recount rfl rfl rfl

theorem usable_define {next : Session} {native : Native} (usable : Usable session.machine)
    (defined : session.define native = .ok next) : Usable next.machine := by
  unfold define at defined
  rcases Machine.defineNative_cases native session.machine with ⟨_, _, _, failed⟩ |
    ⟨_, _, _, _, _, _, succeeded⟩
  · rw [failed] at defined
    cases defined
  · rw [succeeded] at defined
    cases defined
    exact usable.define succeeded

theorem usable_rejected (usable : Usable session.machine) (time : Text)
    (failure : Compiler.Failure) : Usable (session.rejected time failure).1.machine := by
  cases failure with
  | diagnostics _ | exhausted _ => exact usable_drained usable time
  | diverged | unregistered _ => exact usable

theorem usable_concluded (time : Text) (result : Machine.Outcome × Machine)
    (usable : Usable result.2) : Usable (session.concluded time result).1.machine := by
  obtain ⟨outcome, machine⟩ := result
  cases outcome with
  | finished | faulted _ | paused => exact usable.recount rfl rfl rfl
  | wrong => exact usable

theorem launches_dumped {script other : ObjectId} (launches : Launches session.machine script) :
    Launches (session.dumped other).machine script := by
  unfold dumped
  split
  · split
    · exact launches.print _
    · exact launches
  · exact launches

/-- A unit that compiles is launched on the session's machine, with its declarations registered and,
when that is asked for, its listing printed. -/
def launched (session : Session) (source : Text) : Option (Machine × ObjectId) :=
  let machine := session.machine
  match Compiler.compileSource machine.heap machine.registry machine.roots source with
  | (heap, .ok compiled) =>
    let machine := { machine with heap, registry := compiled.registry }
    some (({ session with lastError := [], machine }.dumped compiled.script).machine, compiled.script)
  | (_, .error _) => none

theorem machine_of_launched {source : Text} {machine : Machine} {script : ObjectId}
    (isLaunched : session.launched source = some (machine, script)) :
    ∃ registry output, machine = { session.machine with
      heap := (Compiler.compileSource session.machine.heap session.machine.registry
        session.machine.roots source).1
      registry
      output } := by
  unfold launched at isLaunched
  dsimp only at isLaunched
  split at isLaunched
  · next heap unit ran =>
    cases isLaunched
    rw [ran, dumped]
    split
    · split <;> exact ⟨_, _, rfl⟩
    · exact ⟨_, _, rfl⟩
  · cases isLaunched

theorem launches_of_launched {source : Text} {machine : Machine} {script : ObjectId}
    (usable : Usable session.machine) (plain : session.machine.heap.Plain)
    (isLaunched : session.launched source = some (machine, script)) : Launches machine script := by
  have compiled := Compiler.plain_compile plain session.machine.registry session.machine.roots
    (Token.scan source)
  unfold launched Compiler.compileSource at isLaunched
  dsimp only at isLaunched
  split at isLaunched
  · next heap unit ran =>
    rw [ran] at compiled
    cases isLaunched
    apply launches_dumped
    exact usable.launches compiled (worded_scan source) ran
  · cases isLaunched

theorem interpret_of_launched {time source : Text} {machine : Machine} {script : ObjectId} {steps : Nat}
    (isLaunched : session.launched source = some (machine, script)) :
    session.interpret time source steps
      = { session with lastError := [], machine }.concluded time (machine.interpret script steps) := by
  unfold launched at isLaunched
  unfold Session.interpret
  dsimp only at *
  generalize Compiler.compileSource session.machine.heap session.machine.registry
    session.machine.roots source = result at isLaunched ⊢
  obtain ⟨heap, _ | compiled⟩ := result
  · cases isLaunched
  · cases isLaunched
    dsimp only [dumped]
    split
    · split <;> rfl
    · rfl

/-- A unit that is not launched leaves a machine that has but a new heap. -/
theorem interpret_of_rejected {time source : Text} {steps : Nat}
    (isRejected : session.launched source = none) :
    ∃ failure, session.interpret time source steps
      = { session with
          lastError := []
          machine := { session.machine with
            heap := (Compiler.compileSource session.machine.heap session.machine.registry
              session.machine.roots source).1 } }.rejected time failure := by
  unfold launched at isRejected
  unfold Session.interpret
  dsimp only at *
  generalize Compiler.compileSource session.machine.heap session.machine.registry
    session.machine.roots source = result at isRejected ⊢
  obtain ⟨heap, failure | compiled⟩ := result
  · exact ⟨failure, rfl⟩
  · cases isRejected

theorem usable_interpret (usable : Usable session.machine) (plain : session.machine.heap.Plain)
    (time source : Text) (steps : Nat) :
    Usable (session.interpret time source steps).1.machine := by
  cases isLaunched : session.launched source with
  | none =>
    obtain ⟨failure, isRejected⟩ := @interpret_of_rejected _ time _ steps isLaunched
    rw [isRejected]
    exact usable_rejected (usable.compile (Token.scan source)) time failure
  | some unit =>
    obtain ⟨machine, script⟩ := unit
    rw [interpret_of_launched isLaunched]
    exact usable_concluded time _
      ((launches_of_launched usable plain isLaunched).interpret steps).1

theorem usable_interpretFile (usable : Usable session.machine) (plain : session.machine.heap.Plain)
    (time path : Text) (source : Option Text) (steps : Nat) :
    Usable (session.interpretFile time path source steps).1.machine := by
  cases source with
  | none => exact usable_drained usable time
  | some source =>
    apply usable_interpret
    · exact usable
    · exact plain

end Operations

/-- A machine that has just been made executes nothing. -/
theorem usable_empty (options : Options) :
    Usable { config := options.machine, heap := .empty options.heap } := by
  have tidy := Heap.Tidy.empty options.heap
  refine ⟨⟨⟨_, {}, tidy⟩, ⟨Registry.coherent_empty _, fun present => ?_⟩,
    Or.inr ⟨fun _ => False, ?_⟩⟩, ⟨⟨tidy, ?_, .nil, ?_, ?_, Nat.zero_le _⟩, ?_, ?_⟩, ?_⟩
  · simp [Heap.empty, Heap.get?] at present
  · refine
      { registry := rfl
        methods := fun id member => by simp [Registry.roots] at member
        held := fun id member => by cases member
        globals := fun found => by simp at found
        natives := fun found => by simp at found
        stored := ⟨tidy, Nat.le_refl _, fun isLive => isLive.elim,
          fun here _ found => Option.some.inj (found.symm.trans here)⟩
        calls := .nil
        captured := rfl
        descending := .nil
        cells := fun member => by cases member
        size := rfl
        values := fun here => by simp at here
        fitting := fun struct member => by cases member
        unique := fun id => by simp [Machine.nodeIds, Machine.arenas, StackStruct.idsAmong]
        numbered := fun id member => by
          simp [Machine.nodeIds, Machine.arenas, StackStruct.idsAmong] at member }
  · intro slot id
    simp
  · intro name value found
    simp at found
  · intro name id found
    simp at found
  · intro frame member
    cases member
  · intro frame member
    cases member
  · intro frame member
    cases member

theorem Reachable.usable (reachable : Reachable session) : Usable session.machine := by
  induction reachable with
  | start started => exact usable_define (usable_empty _) started
  | define _ defined ih => exact usable_define ih defined
  | interpret time source steps before ih =>
    exact usable_interpret ih before.confined.heap time source steps
  | interpretFile time path source steps before ih =>
    exact usable_interpretFile ih before.confined.heap time path source steps
  | resume time steps _ ih => exact usable_concluded time _ (ih.run steps)
  | collected time _ ih => exact usable_drained ih.collect time
  | takeOutput _ ih => exact ih.print #[]
  | takeEntries _ ih => exact ih

/-- A new session on a machine of the given size. -/
def fresh (config : MachineConfig) : Session where
  options := { machine := config }
  machine :=
    { config
      heap := ((Heap.empty {}).file clock.name).link (.native clock)
      natives := ({} : Std.TreeMap ObjectId ObjectId).insert 0 1 }

theorem start_fresh (config : MachineConfig) :
    Session.start { machine := config } {} = .ok (fresh config) := by
  have unfiled : (Heap.empty {}).interned[clock.name]? = none := by simp [Heap.empty]
  have interned : Heap.intern (fun _ => [] ++ ({ config, heap := .empty {} } : Machine).roots)
      clock.name (Heap.empty {}) = .ok 0 ((Heap.empty {}).file clock.name) := by
    rw [Heap.intern_of_unfiled _ unfiled]
    rfl
  simp only [Session.start, define, Machine.defineNative, bind, EStateM.bind, Machine.allocating,
    Heap.newNative]
  rw [interned]
  rfl

theorem reachable_fresh (config : MachineConfig) : Reachable (fresh config) :=
  .start (start_fresh config)

end Session

end ScriptMachine
