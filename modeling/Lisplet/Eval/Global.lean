import Lisplet.Eval.Basic

/-! The bindings that a run starts from. -/

namespace Lisplet

namespace Bindings

def core : Bindings :=
  ofList (CoreForm.all.map fun f => (f.name, .operation (.core f)))

def library : Bindings :=
  ofList (Builtin.all.map fun b => (b.name, .operation (.builtin b)))

def global : Bindings :=
  core.override library

end Bindings

def Host.bindings (host : Host) : Bindings :=
  Bindings.ofList (host.map fun entry => (entry.1, .operation (.host entry.1)))

def World.start (bindings : Bindings) : Scope × World :=
  let (scope, store) := Store.empty.extend none bindings
  (scope, { World.empty with store := store })

/-- Fuel for more nested evaluations than fit in memory. -/
def ampleFuel : Nat := 1000000000

end Lisplet
