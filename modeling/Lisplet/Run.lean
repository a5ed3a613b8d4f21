import Lisplet.Fault
import Lisplet.Store

/-! Runs: computations that change a store, leave a transcript, and end in a value or a fault, or
do not end within their fuel. What a run did before a fault stays done. -/

namespace Lisplet

inductive Event where
  | loading (path : String)
  | parsed (count : Nat) (label : Option String)
  | stopped (kind : SyntaxFault.Kind) (offset : Nat)
  | executing (index : Nat) (form : Value)
  | defined (name : String) (v : Value)
  | assigned (name : String) (v : Value)

def Event.text : Event → String
  | .loading path => "DEBUG loading " ++ path
  | .parsed count label =>
    "DEBUG parsed " ++ Decimal.countText count ++ " forms from " ++ label.getD "<input>"
  | .stopped kind offset => "DEBUG " ++ kind.reason ++ " at byte " ++ Decimal.countText offset
  | .executing index form =>
    "TRACE executing form " ++ Decimal.countText index ++ ": " ++ form.text
  | .defined name v => "TRACE define " ++ name ++ " = " ++ v.text
  | .assigned name v => "TRACE setf! " ++ name ++ " = " ++ v.text

structure Transcript where
  printed : String
  notes : Array String
  events : Array Event

def Transcript.empty : Transcript := ⟨"", #[], #[]⟩

structure World where
  store : Store
  transcript : Transcript

def World.empty : World := ⟨.empty, .empty⟩

def World.hush (world : World) : World :=
  { world with transcript := .empty }

abbrev Run := ExceptT Fault (StateT World Option)

namespace Run

def outOfFuel {α : Type} : Run α :=
  fun _ => none

def ofExcept {α : Type} (result : Except Fault α) : Run α :=
  fun world => some (result, world)

def fail {α : Type} (fault : Fault) : Run α :=
  ofExcept (.error fault)

def attempt {α : Type} (run : Run α) : Run (Except Fault α) :=
  fun world => (run world).map fun result => (.ok result.1, result.2)

def within {α : Type} (form : Value) (run : Run α) : Run α :=
  fun world => (run world).map fun result => (result.1.mapError (Fault.within form), result.2)

def update (f : World → World) : Run Unit :=
  fun world => some (.ok (), f world)

def onStore (f : Store → Store) : Run Unit :=
  update fun world => { world with store := f world.store }

def onTranscript (f : Transcript → Transcript) : Run Unit :=
  update fun world => { world with transcript := f world.transcript }

def store : Run Store :=
  fun world => some (.ok world.store, world)

def print (text : String) : Run Unit :=
  onTranscript fun t => { t with printed := t.printed ++ text }

def printLine (text : String) : Run Unit :=
  print (text ++ "\n")

def note (text : String) : Run Unit :=
  onTranscript fun t => { t with notes := t.notes.push text }

def log (event : Event) : Run Unit :=
  onTranscript fun t => { t with events := t.events.push event }

def mark : Run Nat :=
  fun world => some (.ok world.store.marks,
    { world with store := { world.store with marks := world.store.marks + 1 } })

def newList (items : List Value) : Run Value :=
  mark >>= fun m => pure (.list (some m) items)

def extend (outer : Option Scope) (bindings : Bindings) : Run Scope :=
  fun world =>
    let (scope, store) := world.store.extend outer bindings
    some (.ok scope, { world with store := store })

def lookup (scope : Scope) (name : String) : Run Value :=
  fun world => some ((world.store.get? scope name).elim (.error (.unbound name)) .ok, world)

def define (scope : Scope) (name : String) (v : Value) : Run Unit :=
  onStore fun store => store.define scope name v

def assign (scope : Scope) (name : String) (v : Value) : Run Value :=
  fun world =>
    match world.store.assign? scope name v with
    | some store => some (.ok v, { world with store := store })
    | none => some (.error (.unbound name), world)

end Run

end Lisplet
