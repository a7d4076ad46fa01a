/-
What a log says.

The claims about runs are claims about what a connection has done so far, so they are
stated of its log: the bytes the kernel accepted, the messages in the order their
`sendInLoop` ran, the stores to `m_state`, the callbacks.  Each is a projection that
maps every entry to the part of it that counts, so that appending to the log appends to
the projection.
-/
import Muduo.TcpConnection

namespace Muduo

namespace Entry

/-- The bytes the kernel accepted. -/
def accepted : Entry → List Byte
  | .write _ _ bytes => bytes
  | _ => []

/-- The call of `send`, when it saw `kConnected`. -/
def callOf : Entry → List SendCall
  | .called call => [call]
  | _ => []

/-- The call whose `sendInLoop` ran and did not give up. -/
def ranOf : Entry → List SendCall
  | .ran call _ => [call]
  | _ => []

/-- The call whose `sendInLoop` ran, giving up or not. -/
def settledOf : Entry → List SendCall
  | .ran call _ => [call]
  | .gaveUp call => [call]
  | _ => []

/-- What was written or buffered for the call whose `sendInLoop` ran. -/
def takenOf : Entry → List Byte
  | .ran _ bytes => bytes
  | _ => []

/-- The value stored to `m_state`. -/
def storeOf : Entry → List StateE
  | .stored s => [s]
  | _ => []

/-- An invocation of one of the three callbacks `TcpServer` sets on every connection. -/
def isCallback : Entry → Bool
  | .connectionCallback _ => true
  | .messageCallback => true
  | .closeCallback => true
  | _ => false

/-- A step of moving bytes out: a write, a settled message, the end of the output. -/
def isOutput : Entry → Bool
  | .write _ _ _ => true
  | .ran _ _ => true
  | .gaveUp _ => true
  | .shutdownWrite _ _ => true
  | _ => false

/-- A step of a call of `send`. -/
def isCall : Entry → Bool
  | .called _ => true
  | .returned _ => true
  | .ran _ _ => true
  | .gaveUp _ => true
  | _ => false

/-- The beginning or the end of `connectDestoryed`. -/
def isDestory : Entry → Bool
  | .destoryBegin => true
  | .destoryEnd => true
  | _ => false

def isWrite : Entry → Bool
  | .write _ _ _ => true
  | _ => false

def isShutdownWrite : Entry → Bool
  | .shutdownWrite _ _ => true
  | _ => false

theorem isCall_of_isWrite {e : Entry} (h : e.isWrite = true) : e.isCall = false := by
  cases e with
  | write requested ret bytes => rfl
  | _ => simp [isWrite] at h

theorem isShutdownWrite_of_isWrite {e : Entry} (h : e.isWrite = true) :
    e.isShutdownWrite = false := by
  cases e with
  | write requested ret bytes => rfl
  | _ => simp [isWrite] at h

theorem isDestory_of_isOutput {e : Entry} (h : e.isOutput = true) : e.isDestory = false := by
  cases e with
  | destoryBegin | destoryEnd => simp [isOutput] at h
  | _ => rfl

theorem isWrite_of_noOutput {e : Entry} (h : e.isOutput = false) : e.isWrite = false := by
  cases e with
  | write requested ret bytes => simp [isOutput] at h
  | _ => rfl

theorem isShutdownWrite_of_noOutput {e : Entry} (h : e.isOutput = false) :
    e.isShutdownWrite = false := by
  cases e with
  | shutdownWrite state unsent => simp [isOutput] at h
  | _ => rfl

/-- What was returned to `::write` is a count within the request. -/
def Sane : Entry → Prop
  | .write requested ret _ => 0 ≤ ret ∧ ret ≤ requested
  | _ => True

instance : DecidablePred Sane := fun e => by
  cases e <;> unfold Sane <;> infer_instance

end Entry

/-- All bytes `::write` has accepted. -/
def written (log : List Entry) : List Byte := log.flatMap Entry.accepted

/-- The calls of `send` that saw `kConnected`, in order. -/
def called (log : List Entry) : List SendCall := log.flatMap Entry.callOf

/-- The messages whose `sendInLoop` did not give up, in the order they ran. -/
def ranCalls (log : List Entry) : List SendCall := log.flatMap Entry.ranOf

/-- The messages whose `sendInLoop` ran. -/
def settled (log : List Entry) : List SendCall := log.flatMap Entry.settledOf

/-- What the calls of `sendInLoop` wrote or buffered, in order. -/
def taken (log : List Entry) : List Byte := log.flatMap Entry.takenOf

/-- The values stored to `m_state`, oldest first. -/
def stores (log : List Entry) : List StateE := log.flatMap Entry.storeOf

/-- The invocations of the callbacks, oldest first. -/
def callbacks (log : List Entry) : List Entry := log.filter Entry.isCallback

/-- Every `::write` so far returned a count within its request. -/
def SaneWrites (log : List Entry) : Prop := ∀ e ∈ log, e.Sane

instance (log : List Entry) : Decidable (SaneWrites log) :=
  inferInstanceAs (Decidable (∀ e ∈ log, e.Sane))

section Append

variable {l₁ l₂ : List Entry}

@[simp] theorem written_append : written (l₁ ++ l₂) = written l₁ ++ written l₂ :=
  List.flatMap_append

@[simp] theorem called_append : called (l₁ ++ l₂) = called l₁ ++ called l₂ :=
  List.flatMap_append

@[simp] theorem ranCalls_append : ranCalls (l₁ ++ l₂) = ranCalls l₁ ++ ranCalls l₂ :=
  List.flatMap_append

@[simp] theorem settled_append : settled (l₁ ++ l₂) = settled l₁ ++ settled l₂ :=
  List.flatMap_append

@[simp] theorem taken_append : taken (l₁ ++ l₂) = taken l₁ ++ taken l₂ :=
  List.flatMap_append

@[simp] theorem stores_append : stores (l₁ ++ l₂) = stores l₁ ++ stores l₂ :=
  List.flatMap_append

@[simp] theorem callbacks_append : callbacks (l₁ ++ l₂) = callbacks l₁ ++ callbacks l₂ :=
  List.filter_append ..

theorem saneWrites_append : SaneWrites (l₁ ++ l₂) ↔ SaneWrites l₁ ∧ SaneWrites l₂ := by
  simp [SaneWrites, or_imp, forall_and]

end Append

/-! ### The projections of a short log -/

section Cons

variable {e : Entry} {l : List Entry}

@[simp] theorem written_nil : written [] = [] := rfl
@[simp] theorem called_nil : called [] = [] := rfl
@[simp] theorem ranCalls_nil : ranCalls [] = [] := rfl
@[simp] theorem settled_nil : settled [] = [] := rfl
@[simp] theorem taken_nil : taken [] = [] := rfl
@[simp] theorem stores_nil : stores [] = [] := rfl

@[simp] theorem written_cons : written (e :: l) = e.accepted ++ written l := rfl
@[simp] theorem called_cons : called (e :: l) = e.callOf ++ called l := rfl
@[simp] theorem ranCalls_cons : ranCalls (e :: l) = e.ranOf ++ ranCalls l := rfl
@[simp] theorem settled_cons : settled (e :: l) = e.settledOf ++ settled l := rfl
@[simp] theorem taken_cons : taken (e :: l) = e.takenOf ++ taken l := rfl
@[simp] theorem stores_cons : stores (e :: l) = e.storeOf ++ stores l := rfl

end Cons

/-! ### Entries that are about no call -/

section NoCall

variable {l : List Entry}

theorem called_of_noCall (h : ∀ e ∈ l, e.isCall = false) : called l = [] := by
  refine List.flatMap_eq_nil_iff.mpr ?_
  intro e he
  have hcall := h e he
  cases e <;> first | rfl | simp [Entry.isCall] at hcall

theorem settled_of_noCall (h : ∀ e ∈ l, e.isCall = false) : settled l = [] := by
  refine List.flatMap_eq_nil_iff.mpr ?_
  intro e he
  have hcall := h e he
  cases e <;> first | rfl | simp [Entry.isCall] at hcall

theorem taken_of_noCall (h : ∀ e ∈ l, e.isCall = false) : taken l = [] := by
  refine List.flatMap_eq_nil_iff.mpr ?_
  intro e he
  have hcall := h e he
  cases e <;> first | rfl | simp [Entry.isCall] at hcall

theorem ranCalls_of_noCall (h : ∀ e ∈ l, e.isCall = false) : ranCalls l = [] := by
  refine List.flatMap_eq_nil_iff.mpr ?_
  intro e he
  have hcall := h e he
  cases e <;> first | rfl | simp [Entry.isCall] at hcall

theorem stores_of_isOutput (h : ∀ e ∈ l, e.isOutput = true) : stores l = [] := by
  refine List.flatMap_eq_nil_iff.mpr ?_
  intro e he
  have hout := h e he
  cases e <;> first | rfl | simp [Entry.isOutput] at hout

theorem written_of_noOutput (h : ∀ e ∈ l, e.isOutput = false) : written l = [] := by
  refine List.flatMap_eq_nil_iff.mpr ?_
  intro e he
  have hout := h e he
  cases e <;> first | rfl | simp [Entry.isOutput] at hout

end NoCall

/-! ### Messages and what was taken of them -/

theorem ranCalls_sublist_settled (log : List Entry) : (ranCalls log).Sublist (settled log) := by
  induction log with
  | nil => exact List.Sublist.refl _
  | cons e l ih =>
      rw [ranCalls_cons, settled_cons]
      refine List.Sublist.append ?_ ih
      cases e <;> simp [Entry.ranOf, Entry.settledOf]

/-- When every `sendInLoop` took exactly its message, what was taken is the messages. -/
theorem taken_eq_messages {log : List Entry}
    (h : ∀ call bytes, Entry.ran call bytes ∈ log → bytes = call.bytes) :
    taken log = (ranCalls log).flatMap SendCall.bytes := by
  induction log with
  | nil => rfl
  | cons e l ih =>
      have ih := ih fun call bytes hmem => h call bytes (List.mem_cons_of_mem e hmem)
      rw [taken_cons, ranCalls_cons, List.flatMap_append, ← ih]
      congr 1
      cases e with
      | ran call bytes => simp [Entry.takenOf, Entry.ranOf, h call bytes (by simp)]
      | _ => rfl

theorem exists_ran {log : List Entry} {call : SendCall} (h : call ∈ ranCalls log) :
    ∃ bytes, Entry.ran call bytes ∈ log := by
  obtain ⟨e, he, hcall⟩ := List.mem_flatMap.mp h
  cases e with
  | ran c bytes =>
      have hc : call = c := List.mem_singleton.mp hcall
      rw [hc]
      exact ⟨bytes, he⟩
  | _ => simp [Entry.ranOf] at hcall

theorem mem_settled_of_ran {log : List Entry} {call : SendCall} {bytes : List Byte}
    (h : Entry.ran call bytes ∈ log) : call ∈ settled log :=
  List.mem_flatMap.mpr ⟨_, h, by simp [Entry.settledOf]⟩

end Muduo
