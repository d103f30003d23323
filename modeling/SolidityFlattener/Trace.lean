import SolidityFlattener.Failure

/-!
What a computation tells while it runs, beside how it ends.

Records come in order, and those told before a failure are kept.
-/

namespace SolidityFlattener

/-- How much a record matters. -/
inductive Weight
  | debug
  | info
  | warning
  | error
deriving DecidableEq, Repr

/-- The rank of a weight; a threshold lets the ranks from its own on through. -/
def Weight.rank : Weight → Nat
  | debug => 10
  | info => 20
  | warning => 30
  | error => 40

structure Record where
  weight : Weight
  message : Text
deriving DecidableEq, Repr

/-- The records of a computation and its outcome. -/
structure Trace (α : Type) where
  records : List Record
  outcome : Except Failure α

namespace Trace

def pure {α : Type} (a : α) : Trace α := ⟨[], .ok a⟩

def bind {α β : Type} (x : Trace α) (f : α → Trace β) : Trace β :=
  match x.outcome with
  | .ok a => ⟨x.records ++ (f a).records, (f a).outcome⟩
  | .error e => ⟨x.records, .error e⟩

instance : Monad Trace where
  pure := Trace.pure
  bind := Trace.bind

def ofExcept {α : Type} (outcome : Except Failure α) : Trace α := ⟨[], outcome⟩

def tell (weight : Weight) (message : Text) : Trace Unit := ⟨[⟨weight, message⟩], .ok ()⟩

def tellAll (records : List Record) : Trace Unit := ⟨records, .ok ()⟩

def fail {α : Type} (e : Failure) : Trace α := ⟨[], .error e⟩

end Trace

end SolidityFlattener
