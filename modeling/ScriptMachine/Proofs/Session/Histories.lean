import ScriptMachine.Proofs.Session.Sound

set_option autoImplicit false

/- The life of a session, one event after the other. While a unit runs every instruction is an event
of its own, so a history shows the machine between any two instructions. -/
namespace ScriptMachine.Session

/-- What can happen to a session: an operation of its host, with which a unit may begin, or one
instruction of the unit that runs. -/
inductive Event where
  | define (native : Native)
  | interpret (time source : Text)
  | interpretFile (time path : Text) (source : Option Text)
  | resume (time : Text)
  | collect (time : Text)
  | takeOutput
  | takeEntries

/-- The source of the unit that begins. -/
def Event.source? : Event → Option Text
  | .interpret _ source => some source
  | .interpretFile _ _ source => source
  | _ => none

/-- The session after an event. -/
def after (session : Session) : Event → Except Exhausted Session
  | .define native => session.define native
  | .interpret time source => .ok (session.interpret time source 0).1
  | .interpretFile time path source => .ok (session.interpretFile time path source 0).1
  | .resume time => .ok (session.resume time 1).1
  | .collect time => .ok (session.collected time)
  | .takeOutput => .ok session.takeOutput.2
  | .takeEntries => .ok session.takeEntries.2

/-- A session at all its moments, from the first one on. -/
structure History where
  moment : Nat → Session
  event : Nat → Event
  begins : ∃ options journal, start options journal = .ok (moment 0)
  goesOn : ∀ time, (moment time).after (event time) = .ok (moment (time + 1))

theorem reachable_after {session next : Session} {event : Event} (reachable : Reachable session)
    (leads : session.after event = .ok next) : Reachable next := by
  cases event with
  | define native => exact .define reachable leads
  | interpret time source =>
    cases leads
    exact .interpret time source 0 reachable
  | interpretFile time path source =>
    cases leads
    exact .interpretFile time path source 0 reachable
  | resume time =>
    cases leads
    exact .resume time 1 reachable
  | collect time =>
    cases leads
    exact .collected time reachable
  | takeOutput =>
    cases leads
    exact .takeOutput reachable
  | takeEntries =>
    cases leads
    exact .takeEntries reachable

namespace History

def machine (history : History) (time : Nat) : Machine :=
  (history.moment time).machine

theorem reachable (history : History) (time : Nat) : Reachable (history.moment time) := by
  induction time with
  | zero =>
    obtain ⟨options, journal, started⟩ := history.begins
    exact .start started
  | succ time ih => exact reachable_after ih (history.goesOn time)

theorem usable (history : History) (time : Nat) : Machine.Usable (history.machine time) :=
  (history.reachable time).usable

end History

/-- A unit is launched on the machine alone, whatever the journal holds. -/
theorem launched_addContext (session : Session) (key value source : Text) :
    { session with journal := session.journal.addContext key value }.launched source
      = session.launched source := by
  unfold launched dumped
  dsimp only
  split
  · split
    · split <;> rfl
    · rfl
  · rfl

end ScriptMachine.Session
