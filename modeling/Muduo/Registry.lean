/-
`connections_` of a `TcpServer`, by name.

`newConnection` makes the name of a connection from `nextConnId_`, an `int`, and files the
connection under it; `removeConnectionInLoop` is given the connection and erases by its
name.  What the two functions do besides is in `Muduo/TcpServer.lean`, where a connection
is its number and the counter stays within an `int`; here it may overflow, and a
connection is told from another by the order in which they were accepted.
-/
import Mathlib.Data.Nat.ModEq
import Mathlib.Logic.Function.Basic
import Muduo.Lib.Lts
import Muduo.Basic

namespace Muduo

structure Registry where
  ipPort : String
  nextConnId : Int
  /-- The `name()` of every connection there has been, in the order they were accepted. -/
  names : List String
  connections : String → Option Nat

namespace Registry

def new (ipPort : String) : Registry where
  ipPort := ipPort
  nextConnId := 1
  names := []
  connections := fun _ => none

/-- `fmt::format("{}#{}", ipPort_, nextConnId_)`. -/
def connName (ipPort : String) (nextConnId : Int) : String :=
  ipPort ++ "#" ++ toString nextConnId

variable (r : Registry)

def newConnection : Registry :=
  let connName := connName r.ipPort r.nextConnId
  { r with
    nextConnId := toInt (r.nextConnId + 1)
    names := r.names ++ [connName]
    connections := Function.update r.connections connName (some r.names.length) }

/-- `removeConnectionInLoop` for the connection with this number. -/
def removeConnectionInLoop (c : Nat) : Registry :=
  match r.names[c]? with
  | some connName => { r with connections := Function.update r.connections connName none }
  | none => r

inductive Action
  | newConnection
  | removeConnectionInLoop (c : Nat)
  deriving DecidableEq, Repr

def exec : Action → Registry
  | .newConnection => r.newConnection
  | .removeConnectionInLoop c => r.removeConnectionInLoop c

/-- Only a connection that there is can be given to `removeConnectionInLoop`. -/
def Enabled : Action → Prop
  | .newConnection => True
  | .removeConnectionInLoop c => c < r.names.length

instance (a : Action) : Decidable (r.Enabled a) := by
  cases a <;> unfold Enabled <;> infer_instance

def lts : Lts Registry Action where
  init r := ∃ ipPort, r = new ipPort
  step r a r' := r.Enabled a ∧ r.exec a = r'

/-! ### Names and entries -/

/-- The name of the connection with this number. -/
def nameOf (c : Nat) : String := connName r.ipPort (toInt (1 + c))

/-- The connection is in `connections_`. -/
def Open (c : Nat) : Prop := ∃ connName, r.connections connName = some c

/-- `newConnection` inserts under a name that has no entry, and `removeConnectionInLoop` keeps
the entries of all other connections. -/
def OwnEntry : Action → Prop
  | .newConnection => r.connections (connName r.ipPort r.nextConnId) = none
  | .removeConnectionInLoop c => ∀ name d, r.connections name = some d → d ≠ c →
      (r.removeConnectionInLoop c).connections name = some d

/-- No open connection but the one that the call is for was accepted a multiple of 2^32
connections before or after that one. -/
def Apart : Action → Prop
  | .newConnection => ∀ d, r.Open d → ¬ d ≡ r.names.length [MOD 2 ^ 32]
  | .removeConnectionInLoop c => ∀ d, r.Open d → d ≠ c → ¬ d ≡ c [MOD 2 ^ 32]

end Registry

end Muduo
