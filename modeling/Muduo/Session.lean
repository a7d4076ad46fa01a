/-
A connection and the program behind it.

`handleRead` ends in `messageCallback_`, which is given the connection and its input buffer.  What
the program does there is an `App`: it looks at the bytes that can be read, takes some of them
and sends messages, and all of it happens inside `handleRead` on the loop's thread.  Between two
events the program may call `shutdown`; from then on `send` sends nothing.

`received` is everything `::readv` has stored so far, and `answered` what of it came while `send`
still sent; nothing reads the two.
-/
import Muduo.Lib.Lts
import Muduo.History

namespace Muduo

/-- The memory of a `std::string`, which lies at address 0. -/
def Mem.ofString (message : List Byte) : Mem := fun a => message[a]?

/-- What a message callback does to the connection. -/
inductive Op
  /-- `buf->retrieve(len)`. -/
  | retrieve (len : Nat)
  /-- `conn->send(message)`. -/
  | send (message : List Byte)
  deriving DecidableEq, Repr

/-- A program with state `σ`: what its message callback does with the bytes that can be read. -/
structure App (σ : Type) where
  onMessage : σ → List Byte → σ × List Op

/-- The echo server of `main_test.cpp`: `retrieveAllAsString`, and `send` of the string. -/
def App.echo : App Unit where
  onMessage _ content := ((), [.retrieve content.length, .send content])

namespace Op

/-- One call that the callback makes, on the loop's thread `t`; a `std::string` is no longer than
its `max_size()`. -/
def run (t : Tid) (x : Ctx) (w : WriteResult) : Op → Except Fault Ctx
  | .retrieve len => .ok (x.setInput (x.conn.inputBuffer.retrieve len))
  | .send message =>
      if maxSize < message.length then .error .lengthError
      else do
        let (x, pc) ← x.send t (Mem.ofString message) 0 message.length
        match pc with
        | .sending call => x.sendRun true (Mem.ofString message) call w
        | _ => return x

/-- The calls of the callback in order, with what `::write` returns if the i-th comes to it. -/
def runAll (t : Tid) (x : Ctx) (answers : Nat → WriteResult) : List Op → Except Fault Ctx
  | [] => .ok x
  | op :: ops => do
      let x ← op.run t x (answers 0)
      runAll t x (fun i => answers (i + 1)) ops

/-- What the calls leave in the input buffer. -/
def leftover : List Op → List Byte → List Byte
  | [], content => content
  | .retrieve len :: ops, content => leftover ops (content.drop len)
  | .send _ :: ops, content => leftover ops content

/-- What the calls send. -/
def sends : List Op → List Byte
  | [] => []
  | .retrieve _ :: ops => sends ops
  | .send message :: ops => message ++ sends ops

end Op

structure Session (σ : Type) where
  loopTid : Tid
  x : Ctx
  app : σ
  received : List Byte
  answered : List Byte

namespace Session

variable {σ : Type}

inductive Action
  /-- `handleRead`, and what `::write` returns inside the callback. -/
  | readable (r : ReadvResult) (answers : Nat → WriteResult)
  | writable (w : WriteResult)
  /-- `handleClose`, without a read. -/
  | hangup
  | shutdown
  /-- The loop's other connections have changed the poller. -/
  | others (poller : EpollPoller)

variable (s : Session σ)

/-- When an action can happen. -/
def Enabled : Action → Prop
  -- `::readv` fails, or stores as many bytes as it returns
  | .readable r _ => s.x.conn.channel.isReading = true ∧ (r.Failed ∨
      (r.ret = r.data.length ∧ r.data.length ≤ s.x.conn.inputBuffer.readvLimit))
  | .writable _ => s.x.conn.channel.isWriting = true
  | .hangup => s.x.conn.channel.isReading = true
  | .shutdown => True
  | .others poller =>
      poller.channels s.x.conn.channel.fd = s.x.poller.channels s.x.conn.channel.fd ∧
      poller.interest s.x.conn.channel.fd = s.x.poller.interest s.x.conn.channel.fd

/-- The connection goes down, and the server is told. -/
def closed (x : Ctx) : Except Fault (Session σ) := do
  return { s with x := ← x.invokeCloseCallback }

/-- The message callback: the program sees what can be read. -/
def message (A : App σ) (x : Ctx) (data : List Byte) (answers : Nat → WriteResult) :
    Except Fault (Session σ) := do
  let (app, ops) := A.onMessage s.app x.conn.inputBuffer.content
  let received := s.received ++ data
  let answered := if x.connected then received else s.answered
  return { s with x := ← Op.runAll s.loopTid x answers ops, app, received, answered }

def exec (A : App σ) : Action → Except Fault (Session σ)
  | .readable r answers => do
      let (x, frames) ← s.x.handleRead r
      if frames = [] then s.message A x r.data answers else s.closed x
  | .writable w => do return { s with x := ← s.x.handleWrite w }
  | .hangup => do
      let (x, _) ← s.x.handleClose
      s.closed x
  | .shutdown =>
      match s.x.shutdown s.loopTid with
      | (x, .shutdownSeen) => .ok { s with x := x.shutdownStore.shutdownRun true }
      | (x, _) => .ok { s with x := x }
  | .others poller => .ok { s with x := { s.x with poller := poller } }

/-- `connectEstablished` has just brought the connection up; the program is in state `init`. -/
structure Init (init : σ) : Prop where
  up : ∃ x : Ctx, (∃ id fd writeComplete, x.conn = TcpConnection.new id fd writeComplete) ∧
    x.log = [] ∧ x.connectEstablished = .ok s.x
  app : s.app = init
  received : s.received = []
  answered : s.answered = []

/-- The system: an enabled action that ends without a fault. -/
def lts (A : App σ) (init : σ) : Lts (Session σ) Action where
  init s := s.Init init
  step s a s' := s.Enabled a ∧ s.exec A a = .ok s'

/-! ### Running a list of actions -/

instance (a : Action) : Decidable (s.Enabled a) :=
  match a with
  | .readable _ _ | .others _ => inferInstanceAs (Decidable (_ ∧ _))
  | .writable _ | .hangup => inferInstanceAs (Decidable (_ = true))
  | .shutdown => .isTrue trivial

/-- The state after an action. -/
def stepped (A : App σ) (s : Session σ) (a : Action) : Option (Session σ) :=
  if s.Enabled a then (s.exec A a).toOption else none

theorem stepped_sound {A : App σ} {init : σ} {s s' : Session σ} {a : Action}
    (h : stepped A s a = some s') : (lts A init).step s a s' := by
  unfold stepped at h
  by_cases hen : s.Enabled a
  · rw [if_pos hen] at h
    exact ⟨hen, Except.toOption_eq_some.mp h⟩
  · rw [if_neg hen] at h
    simp at h

/-- Connection 1, with descriptor 7, has come up on the loop of thread 1. -/
def start (init : σ) : Session σ where
  loopTid := 1
  x :=
    { conn := { TcpConnection.new 1 7 false with
        state := .kConnected
        channel := { id := 1, fd := 7, events := Channel.kReadEvent, revents := 0,
                     index := .kAdded, tied := true } }
      poller := { channels := Function.update (fun _ => none) 7 (some 1)
                  interest := Function.update (fun _ => none) 7 (some (1, Channel.kReadEvent)) }
      pending := []
      log := [.establish, .stored .kConnected, .connectionCallback true] }
  app := init
  received := []
  answered := []

theorem start_init (A : App σ) (init : σ) : (lts A init).init (start init) where
  up := ⟨{ conn := TcpConnection.new 1 7 false, poller := .empty, pending := [], log := [] },
    ⟨1, 7, false, rfl⟩, rfl, rfl⟩
  app := rfl
  received := rfl
  answered := rfl

/-- A run, found by computing it. -/
theorem exists_of_run (A : App σ) (init : σ) (as : List Action) (p : Session σ → Prop)
    [DecidablePred p]
    (h : (Lts.run (stepped A) (start init) as).any (fun s => decide (p s)) = true) :
    ∃ s, (lts A init).Reachable s ∧ p s := by
  obtain ⟨s, hs, hp⟩ := (Option.any_eq_true _ _).mp h
  have hpath : Lts.Path (lts A init) (start init) as s :=
    Lts.Path.of_run (I := fun _ => True) (fun _ _ _ _ hnext => ⟨stepped_sound hnext, trivial⟩)
      trivial hs
  exact ⟨s, ⟨as, start init, start_init A init, hpath⟩, of_decide_eq_true hp⟩

end Session

end Muduo
