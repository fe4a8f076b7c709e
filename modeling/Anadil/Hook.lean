import Anadil.Compile

/-! # Hooks

Callbacks that are told of events. A callback may register, unregister and fire in its turn, look at the
registry, and read and change what it remembers. A firing that would not end runs out of steps and has no
result. -/

namespace Anadil.Hook

/-- The event before a source is compiled. -/
def before : Text := "transpile.before"

/-- The event after a source was compiled. -/
def after : Text := "transpile.after"

/-- The event after a source was refused. -/
def failed : Text := "transpile.failed"

/-- What callbacks are told. -/
structure Event where
  name : Text
  source : Text
  output : Text
  fault : Option Text
deriving DecidableEq, Repr

/-- What a caller does, one request after another. Each may look at the answers to the requests before it:
what is remembered, whether a callback was there, why one was refused, and which names and events there
are. A memory `σ` holds what callers and callbacks keep outside the registry. -/
inductive Script (σ : Type) where
  | done
  | fetch (next : σ → Script σ)
  | keep (memory : σ) (next : Script σ)
  | unregister (event name : Text) (next : Bool → Script σ)
  | register (event name : Text) (callback : Option (Event → Script σ)) (next : Option Fault → Script σ)
  | fire (ev : Event) (next : Script σ)
  | names (event : Text) (next : List Text → Script σ)
  | events (next : List Text → Script σ)

/-- What a callback does when it is told of an event. -/
abbrev Callback (σ : Type) := Event → Script σ

/-- A callback under a name for an event. -/
structure Entry (σ : Type) where
  event : Text
  name : Text
  callback : Callback σ

/-- What is to be done: what a caller asks, or the callbacks to be told of an event. -/
inductive Turn (σ : Type) where
  | ask (script : Script σ)
  | tell (ev : Event) (entries : List (Entry σ))

/-- The callbacks, in the order in which they were registered. -/
abbrev Registry (σ : Type) := List (Entry σ)

/-- A call of a callback. -/
structure Call where
  name : Text
  event : Event
deriving DecidableEq, Repr

variable {σ : Type}

/-- Whether a callback has a name for an event. -/
def Entry.under (event name : Text) (e : Entry σ) : Bool := e.event == event && e.name == name

namespace Registry

def listening (r : Registry σ) (event : Text) : List (Entry σ) := r.filter (·.event == event)

def has (r : Registry σ) (event name : Text) : Bool := r.any (Entry.under event name)

/-- Adds a callback behind the others. There may be no callback to add, and the name may be taken. -/
def register (r : Registry σ) (event name : Text) (callback : Option (Callback σ)) :
    Except Fault (Registry σ) :=
  match callback with
  | none => .error (.plain ("hooks: " ++ Fault.guarded event ++ ": " ++ Fault.guarded name ++ ": nil callback"))
  | some callback =>
    if r.has event name then .error (.hookTaken event name)
    else .ok (r ++ [⟨event, name, callback⟩])

/-- Takes a callback away, and says whether it was there. -/
def unregister (r : Registry σ) (event name : Text) : Bool × Registry σ :=
  if r.has event name then (true, r.eraseP (Entry.under event name))
  else (false, r)

/-- The names of the callbacks for an event. -/
def names (r : Registry σ) (event : Text) : List Text := (r.listening event).map (·.name)

/-- The events that have callbacks, in order. -/
def events (r : Registry σ) : List Text := r.foldl (fun es e => Text.insert e.event es) []

/-- Does what a caller asks, or calls callbacks one after another. Gives the memory and the registry that are
left and the calls in their order, or nothing if that takes too many steps. -/
def carryOut : Nat → σ → Registry σ → Turn σ → Option (σ × Registry σ × List Call)
  | 0, _, _, _ => none
  | steps + 1, m, r, .ask script =>
    match script with
    | .done => some (m, r, [])
    | .fetch next => carryOut steps m r (.ask (next m))
    | .keep m' next => carryOut steps m' r (.ask next)
    | .unregister event name next =>
      let (removed, r') := r.unregister event name
      carryOut steps m r' (.ask (next removed))
    | .register event name callback next =>
      match r.register event name callback with
      | .ok r' => carryOut steps m r' (.ask (next none))
      | .error f => carryOut steps m r (.ask (next (some f)))
    | .fire ev next => do
      let (m', r', calls) ← carryOut steps m r (.tell ev (r.listening ev.name))
      let (m'', r'', more) ← carryOut steps m' r' (.ask next)
      return (m'', r'', calls ++ more)
    | .names event next => carryOut steps m r (.ask (next (r.names event)))
    | .events next => carryOut steps m r (.ask (next r.events))
  | _ + 1, m, r, .tell _ [] => some (m, r, [])
  | steps + 1, m, r, .tell ev (e :: es) => do
    let (m', r', inner) ← carryOut steps m r (.ask (e.callback ev))
    let (m'', r'', more) ← carryOut steps m' r' (.tell ev es)
    return (m'', r'', ⟨e.name, ev⟩ :: inner ++ more)

/-- Calls the callbacks that are registered for an event at this moment. -/
def fire (steps : Nat) (m : σ) (r : Registry σ) (ev : Event) : Option (σ × Registry σ × List Call) :=
  carryOut steps m r (.tell ev (r.listening ev.name))

/-- Compiles a source and tells the callbacks before and after. -/
def compile (steps : Nat) (m : σ) (r : Registry σ) (style : Python.Style) (source : Text) :
    Option (Except Fault Text × σ × Registry σ × List Call) := do
  let (m', r', calls) ← fire steps m r ⟨before, source, [], none⟩
  let outcome := Anadil.compile style source
  let ev : Event :=
    match outcome with
    | .ok python => ⟨after, source, python, none⟩
    | .error f => ⟨failed, source, [], some f.message⟩
  let (m'', r'', more) ← fire steps m' r' ev
  return (outcome, m'', r'', calls ++ more)

end Registry

/-- More steps than any run takes. -/
def mostSteps : Nat := UInt64.size

end Anadil.Hook
