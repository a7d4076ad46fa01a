/-
The order of a connection's callbacks.

On its own loop a connection goes up, has messages, and goes down once, from `handleClose`
or from `connectDestoryed`; the close callback follows `handleClose`.  What makes sure that
nothing comes after the end is the poller: closing takes the channel out of the interest
set, and only a channel that is in it is reported.  `Discipline` ties the callbacks made so
far to the state, the registration of the channel and the frames the loop is inside of.
-/
import Muduo.Proofs.LoopOnly

namespace Muduo

/-- Never `EPOLLPRI` together with `EPOLLHUP` and without `EPOLLIN`. -/
def Plausible (revents : Events) : Prop :=
  revents.has EPOLLPRI = true → revents.has EPOLLHUP = true → revents.has EPOLLIN = true

instance (revents : Events) : Decidable (Plausible revents) :=
  inferInstanceAs (Decidable (_ → _ → _))

/-- What makes `handleClose` run leaves nothing to read. -/
theorem Plausible.not_readable {revents : Events} (h : Plausible revents)
    (hup : revents.has EPOLLHUP = true) (hin : revents.has EPOLLIN = false) :
    revents.has (EPOLLIN ||| EPOLLPRI) = false := by
  have hpri : revents.has EPOLLPRI = false := by
    by_contra hne
    have htrue := h (by simpa using hne) hup
    rw [hin] at htrue
    simp at htrue
  rw [Channel.has_or, hin, hpri]
  rfl

/-- The callbacks of a connection that is up and has had `n` messages. -/
def upTo (n : Nat) : List Entry :=
  .connectionCallback true :: List.replicate n .messageCallback

theorem upTo_succ (n : Nat) : upTo n ++ [.messageCallback] = upTo (n + 1) := by
  rw [upTo, List.cons_append, ← List.replicate_succ']
  rfl

def Up (log : List Entry) : Prop := ∃ n, callbacks log = upTo n

def Down (log : List Entry) : Prop :=
  ∃ n, callbacks log = upTo n ++ [.connectionCallback false]

def Closed (log : List Entry) : Prop :=
  ∃ n, callbacks log = upTo n ++ [.connectionCallback false, .closeCallback]

theorem callbacks_of_noCallback {l : List Entry} (h : ∀ e ∈ l, e.isCallback = false) :
    callbacks l = [] := by
  refine List.filter_eq_nil_iff.mpr ?_
  intro e he
  rw [h e he]
  simp

theorem callbacks_append_noCallback {l es : List Entry} (h : ∀ e ∈ es, e.isCallback = false) :
    callbacks (l ++ es) = callbacks l := by
  rw [callbacks_append, callbacks_of_noCallback h, List.append_nil]

theorem isCallback_of_isOutput {e : Entry} (h : e.isOutput = true) : e.isCallback = false := by
  cases e with
  | connectionCallback | messageCallback | closeCallback => simp [Entry.isOutput] at h
  | _ => rfl

theorem Ctx.OutputStep.callbacks {x x' : Ctx} (h : OutputStep x x') :
    callbacks x'.log = callbacks x.log := by
  obtain ⟨es, hes, hall⟩ := h.log
  rw [hes]
  exact callbacks_append_noCallback fun e he => isCallback_of_isOutput (hall e he)

/-- What the loop thread can have left of the handlers it is inside of, once the connection
is up. -/
inductive Shape : List Frame → Prop
  | idle : Shape []
  | closePart : Shape [.closePart, .errorPart, .readPart, .writePart]
  | closed : Shape [.closeCallback, .errorPart, .readPart, .writePart]
  | errorPart : Shape [.errorPart, .readPart, .writePart]
  | readPart : Shape [.readPart, .writePart]
  | read : Shape [.closeCallback, .writePart]
  | writePart : Shape [.writePart]
  | destoryStore : Shape [.destoryStore, .destoryRemove]
  | destoryRemove : Shape [.destoryRemove]

namespace ConnSystem

variable {s s' : ConnSystem} {a : Action}

/-- `epoll_wait` reports masks that occur. -/
def PlausibleMask : Action → Prop
  | .poll (some revents) => Plausible revents
  | _ => True

instance (a : Action) : Decidable (PlausibleMask a) :=
  match a with
  | .poll (some revents) => inferInstanceAs (Decidable (Plausible revents))
  | .poll none | .send _ _ _ | .sendRun _ _ | .shutdown _ | .shutdownStore _ | .shutdownRun _
  | .poke _ _ | .setWriteCompleteCallback _ | .setHighWaterMarkCallback _ _ | .queueDestory
  | .others _ | .handleEvent | .frame _ | .swap | .functor _ | .batchEnd => .isTrue trivial

/-- The channel is in the interest set, for reading at least. -/
def Registered (s : ConnSystem) : Prop :=
  s.conn.channel.index = .kAdded ∧ s.conn.channel.isReading = true

/-- `connectDestoryed` found the connection half-closed and took the channel out. -/
structure Removed (s : ConnSystem) : Prop where
  state : s.conn.state = .kDisconnecting
  index : s.conn.channel.index = .kNew
  active : s.active = false
  frames : ∀ f ∈ s.frames, f = .destoryRemove

/-- What the loop is still inside of, after the end of the connection, calls nothing back
but the close callback. -/
structure Finishing (s : ConnSystem) : Prop where
  active : s.active = false
  index : s.conn.channel.index ≠ .kAdded
  writing : s.conn.channel.isWriting = false
  closePart : .closePart ∉ s.frames
  destoryStore : .destoryStore ∉ s.frames
  readPart : .readPart ∈ s.frames →
    s.conn.channel.revents.has (EPOLLIN ||| EPOLLPRI) = false

structure Discipline (s : ConnSystem) : Prop where
  shape : Shape s.frames
  mask : Plausible s.conn.channel.revents
  active : s.active = true → s.frames = []
  removing : s.frames = [.destoryRemove] → s.conn.state ≠ .kConnected
  opened : s.conn.state ≠ .kDisconnected →
    Up s.log ∧ .closeCallback ∉ s.frames ∧ (Registered s ∨ Removed s)
  closed : s.conn.state = .kDisconnected → Finishing s ∧
    (Down s.log ∨ (Closed s.log ∧ .closeCallback ∉ s.frames))

theorem Established.callbacks_eq (h : Established s) : callbacks s.log = upTo 0 := by
  obtain ⟨es, hes, hlog⟩ := h.log
  have hnil : callbacks es = [] := by
    refine callbacks_of_noCallback ?_
    intro e he
    obtain ⟨t, rfl⟩ := hes e he
    rfl
  rw [hlog, callbacks_append, hnil]
  rfl

theorem Established.discipline (h : Established s) : Discipline s := by
  refine ⟨by rw [h.frames]; exact .idle, ?_, ?_, ?_, ?_, ?_⟩
  · rw [h.revents]
    decide
  · intro hactive
    rw [h.active] at hactive
    simp at hactive
  · intro hframes
    rw [h.frames] at hframes
    simp at hframes
  · intro _
    refine ⟨⟨0, h.callbacks_eq⟩, by simp [h.frames], Or.inl ⟨h.index, ?_⟩⟩
    rw [Channel.isReading, h.events]
    decide
  · intro hs
    rw [h.state] at hs
    simp at hs

namespace Discipline

/-- A step that neither calls back nor moves the loop thread, of a connection that stays as
it is or only changes its write interest while it is in the interest set. -/
theorem same (h : Discipline s) (hframes : s'.frames = s.frames) (hactive : s'.active = s.active)
    (hrevents : s'.conn.channel.revents = s.conn.channel.revents)
    (hlog : callbacks s'.log = callbacks s.log) (hstate : s'.conn.state = s.conn.state)
    (hchannel : s'.conn.channel = s.conn.channel ∨
      (s.conn.state = .kConnected ∧ (Registered s → Registered s'))) : Discipline s' := by
  have hup : Up s'.log ↔ Up s.log := by
    rw [Up, Up, hlog]
  have hdown : Down s'.log ↔ Down s.log := by
    rw [Down, Down, hlog]
  have hclosed : Closed s'.log ↔ Closed s.log := by
    rw [Closed, Closed, hlog]
  refine ⟨by rw [hframes]; exact h.shape, by rw [hrevents]; exact h.mask, ?_, ?_, ?_, ?_⟩
  · rw [hactive, hframes]
    exact h.active
  · rw [hframes, hstate]
    exact h.removing
  · intro hne
    rw [hstate] at hne
    obtain ⟨hcb, hnot, hreg⟩ := h.opened hne
    refine ⟨hup.mpr hcb, by rw [hframes]; exact hnot, ?_⟩
    rcases hchannel with hsame | ⟨hconn, hkeep⟩
    · rcases hreg with hreg | hrem
      · exact Or.inl ⟨by rw [hsame]; exact hreg.1, by rw [hsame]; exact hreg.2⟩
      · exact Or.inr ⟨by rw [hstate, hrem.state], by rw [hsame, hrem.index],
          by rw [hactive, hrem.active], by rw [hframes]; exact hrem.frames⟩
    · rcases hreg with hreg | hrem
      · exact Or.inl (hkeep hreg)
      · rw [hrem.state] at hconn
        simp at hconn
  · intro hs
    rw [hstate] at hs
    obtain ⟨hfin, hcb⟩ := h.closed hs
    rcases hchannel with hsame | ⟨hconn, -⟩
    · refine ⟨⟨by rw [hactive, hfin.active], by rw [hsame]; exact hfin.index,
        by rw [hsame, hfin.writing], by rw [hframes]; exact hfin.closePart,
        by rw [hframes]; exact hfin.destoryStore, by rw [hframes, hsame]; exact hfin.readPart⟩, ?_⟩
      rw [hdown, hclosed, hframes]
      exact hcb
    · rw [hs] at hconn
      simp at hconn

/-- Running an output function of an open connection. -/
theorem registered_output {x : Ctx} (hx : Ctx.OutputStep s.ctx x) (hreg : Registered s) :
    Registered (s.put x) :=
  ⟨hx.index hreg.2 hreg.1, hx.reading.trans hreg.2⟩

/-- Inside its handlers an open connection is in the interest set. -/
theorem registered (h : Discipline s) (hopen : s.conn.state ≠ .kDisconnected) {f : Frame}
    (hf : f ∈ s.frames) (hne : f ≠ .destoryRemove) : Registered s := by
  obtain ⟨-, -, hreg | hrem⟩ := h.opened hopen
  · exact hreg
  · exact absurd (hrem.frames f hf) hne

theorem not_active (h : Discipline s) (hne : s.frames ≠ []) : s.active = false := by
  by_contra hact
  exact hne (h.active (by simpa using hact))

/-- The end of the connection, from a handler or from `connectDestoryed`. -/
theorem closes {y x : Ctx} {fs : List Frame} (hx : Ctx.CloseStep y x)
    (hmask : Plausible y.conn.channel.revents) (hactive : s.active = false)
    (hindex : y.conn.channel.index = .kAdded) (hup : Up y.log) (hshape : Shape fs)
    (hclosePart : .closePart ∉ fs) (hdestoryStore : .destoryStore ∉ fs)
    (hreadPart : .readPart ∈ fs → y.conn.channel.revents.has (EPOLLIN ||| EPOLLPRI) = false) :
    Discipline { s.put x with frames := fs } := by
  have hrevents : x.conn.channel.revents = y.conn.channel.revents := by
    rw [hx.channel]
    rfl
  obtain ⟨n, hn⟩ := hup
  refine ⟨hshape, ?_, ?_, ?_, fun hne => absurd hx.state hne, fun _ => ⟨?_, Or.inl ⟨n, ?_⟩⟩⟩
  · show Plausible x.conn.channel.revents
    rw [hrevents]
    exact hmask
  · intro hact
    have hact : s.active = true := hact
    rw [hactive] at hact
    simp at hact
  · intro _
    show x.conn.state ≠ .kConnected
    rw [hx.state]
    simp
  · refine ⟨hactive, ?_, ?_, hclosePart, hdestoryStore, ?_⟩
    · show x.conn.channel.index ≠ .kAdded
      rw [hx.channel, Channel.withEvents_index, hindex]
      simp
    · show x.conn.channel.isWriting = false
      rw [hx.channel]
      simp [Channel.isWriting]
    · show _ → x.conn.channel.revents.has (EPOLLIN ||| EPOLLPRI) = false
      rw [hrevents]
      exact hreadPart
  · show callbacks x.log = _
    rw [hx.log, callbacks_append, hn]
    rfl

/-- A frame that does nothing more. -/
theorem skip (h : Discipline s) {f : Frame} {rest : List Frame} (frames : s.frames = f :: rest)
    (hshape : Shape rest) (hremove : rest ≠ [.destoryRemove])
    (hnot : .closeCallback ∉ s.frames) {x : Ctx} (hstate : x.conn.state = s.conn.state)
    (hrevents : x.conn.channel.revents = s.conn.channel.revents)
    (hlog : callbacks x.log = callbacks s.log)
    (hreg : s.conn.state ≠ .kDisconnected → Registered (s.put x))
    (hclosed : s.conn.state = .kDisconnected → x.conn.channel = s.conn.channel) :
    Discipline { s.put x with frames := rest } := by
  have hactive := h.not_active (by simp [frames])
  have hsub : ∀ g ∈ rest, g ∈ s.frames := by
    intro g hg
    rw [frames]
    exact List.mem_cons_of_mem f hg
  refine ⟨hshape, ?_, ?_, fun heq => absurd heq hremove, ?_, ?_⟩
  · show Plausible x.conn.channel.revents
    rw [hrevents]
    exact h.mask
  · intro hact
    have hact : s.active = true := hact
    rw [hactive] at hact
    simp at hact
  · intro hne
    have hne : s.conn.state ≠ .kDisconnected := by
      rw [← hstate]
      exact hne
    obtain ⟨⟨n, hn⟩, -, -⟩ := h.opened hne
    exact ⟨⟨n, hlog.trans hn⟩, fun hmem => hnot (hsub _ hmem), Or.inl (hreg hne)⟩
  · intro hs
    have hs : s.conn.state = .kDisconnected := by
      rw [← hstate]
      exact hs
    obtain ⟨hfin, hcb⟩ := h.closed hs
    have hchannel := hclosed hs
    refine ⟨⟨hactive, ?_, ?_, fun hmem => hfin.closePart (hsub _ hmem),
      fun hmem => hfin.destoryStore (hsub _ hmem), fun hmem => ?_⟩, ?_⟩
    · show x.conn.channel.index ≠ .kAdded
      rw [hchannel]
      exact hfin.index
    · show x.conn.channel.isWriting = false
      rw [hchannel, hfin.writing]
    · show x.conn.channel.revents.has (EPOLLIN ||| EPOLLPRI) = false
      rw [hrevents]
      exact hfin.readPart (hsub _ hmem)
    · rcases hcb with ⟨n, hn⟩ | ⟨⟨n, hn⟩, -⟩
      · exact Or.inl ⟨n, hlog.trans hn⟩
      · exact Or.inr ⟨⟨n, hlog.trans hn⟩, fun hmem => hnot (hsub _ hmem)⟩

/-- The close callback, after `handleClose`. -/
theorem closeCallback (h : Discipline s) {rest : List Frame}
    (frames : s.frames = .closeCallback :: rest) (hshape : Shape rest)
    (hremove : rest ≠ [.destoryRemove]) (hnot : .closeCallback ∉ rest) :
    Discipline { s.put (s.ctx.record .closeCallback) with frames := rest } := by
  have hactive := h.not_active (by simp [frames])
  have hmem : .closeCallback ∈ s.frames := by simp [frames]
  have hs : s.conn.state = .kDisconnected := by
    by_contra hne
    exact (h.opened hne).2.1 hmem
  obtain ⟨hfin, ⟨n, hn⟩ | ⟨-, hgone⟩⟩ := h.closed hs
  · have hsub : ∀ g ∈ rest, g ∈ s.frames := by
      intro g hg
      rw [frames]
      exact List.mem_cons_of_mem _ hg
    refine ⟨hshape, h.mask, ?_, fun heq => absurd heq hremove, fun hne => absurd hs hne,
      fun _ => ⟨⟨hactive, hfin.index, hfin.writing, fun hmem => hfin.closePart (hsub _ hmem),
        fun hmem => hfin.destoryStore (hsub _ hmem), fun hmem => hfin.readPart (hsub _ hmem)⟩,
        Or.inr ⟨⟨n, ?_⟩, hnot⟩⟩⟩
    · intro hact
      have hact : s.active = true := hact
      rw [hactive] at hact
      simp at hact
    · show callbacks (s.log ++ [.closeCallback]) = _
      rw [callbacks_append, hn, List.append_assoc]
      rfl
  · exact absurd hmem hgone

/-- A message arrived. -/
theorem message (h : Discipline s) (frames : s.frames = [.readPart, .writePart])
    (hopen : s.conn.state ≠ .kDisconnected) {y : Ctx} (hread : Ctx.ReadStep s.ctx y) :
    Discipline { s.put (y.record .messageCallback) with frames := [.writePart] } := by
  have hactive := h.not_active (by simp [frames])
  have hreg := h.registered hopen (f := .readPart) (by simp [frames]) (by simp)
  obtain ⟨⟨n, hn⟩, -, -⟩ := h.opened hopen
  obtain ⟨limit, ret, hlog⟩ := hread.log
  have hchannel : y.conn.channel = s.conn.channel := hread.channel
  refine ⟨.writePart, ?_, ?_, fun heq => by simp at heq, fun _ => ⟨⟨n + 1, ?_⟩, by simp,
    Or.inl ⟨?_, ?_⟩⟩, fun hs => ?_⟩
  · show Plausible y.conn.channel.revents
    rw [hchannel]
    exact h.mask
  · intro hact
    have hact : s.active = true := hact
    rw [hactive] at hact
    simp at hact
  · show callbacks (y.log ++ [.messageCallback]) = _
    rw [hlog, callbacks_append, callbacks_append_noCallback (by simp [Entry.isCallback]),
      ← upTo_succ]
    exact congrArg (· ++ _) hn
  · show y.conn.channel.index = .kAdded
    rw [hchannel]
    exact hreg.1
  · show y.conn.channel.isReading = true
    rw [hchannel]
    exact hreg.2
  · exact absurd (hread.state.symm.trans hs) hopen

/-- The end of `connectDestoryed`. -/
theorem destoryRemove (h : Discipline s) (hstarted : Started s)
    (frames : s.frames = [.destoryRemove]) {x : Ctx} (hx : Ctx.RemoveStep s.ctx x) :
    Discipline { s.put x with frames := [] } := by
  have hactive := h.not_active (by simp [frames])
  have hchannel : x.conn.channel = { s.conn.channel with index := .kNew } := hx.channel
  have hstate : x.conn.state = s.conn.state := hx.state
  have hlog : callbacks x.log = callbacks s.log := by
    rw [hx.log]
    exact callbacks_append_noCallback (by simp [Entry.isCallback])
  refine ⟨.idle, ?_, fun _ => rfl, fun heq => by simp at heq, ?_, ?_⟩
  · show Plausible x.conn.channel.revents
    rw [hchannel]
    exact h.mask
  · intro hne
    have hne : s.conn.state ≠ .kDisconnected := by
      rw [← hstate]
      exact hne
    have hst : s.conn.state = .kDisconnecting := by
      cases hs : s.conn.state with
      | kDisconnecting => rfl
      | kConnecting => exact absurd hs hstarted.state
      | kConnected => exact absurd hs (h.removing frames)
      | kDisconnected => exact absurd hs hne
    obtain ⟨⟨n, hn⟩, -, -⟩ := h.opened hne
    refine ⟨⟨n, hlog.trans hn⟩, by simp, Or.inr ⟨hstate.trans hst, ?_, hactive, by simp⟩⟩
    show x.conn.channel.index = .kNew
    rw [hchannel]
  · intro hs
    obtain ⟨hfin, hcb⟩ := h.closed (hstate.symm.trans hs)
    refine ⟨⟨hactive, ?_, ?_, by simp, by simp, by simp⟩, ?_⟩
    · show x.conn.channel.index ≠ .kAdded
      rw [hchannel]
      simp
    · show x.conn.channel.isWriting = false
      rw [hchannel]
      exact hfin.writing
    · rcases hcb with ⟨n, hn⟩ | ⟨⟨n, hn⟩, -⟩
      · exact Or.inl ⟨n, hlog.trans hn⟩
      · exact Or.inr ⟨⟨n, hlog.trans hn⟩, by simp⟩

theorem frame (h : Discipline s) (hstarted : Started s) {f : Frame} {rest : List Frame} {io : Io}
    {x : Ctx} {fs : List Frame} (frames : s.frames = f :: rest)
    (hx : s.ctx.runFrame io f = .ok (x, fs)) :
    Discipline { s.put x with frames := fs ++ rest } := by
  have hactive := h.not_active (by simp [frames])
  have hmem : f ∈ s.frames := by simp [frames]
  have hshape := h.shape
  rw [frames] at hshape
  cases hshape with
  | closePart =>
      have hopen : s.conn.state ≠ .kDisconnected := fun hs =>
        (h.closed hs).1.closePart hmem
      have hreg := h.registered hopen hmem (by simp)
      rcases Ctx.runFrame_closePart hx with ⟨rfl, rfl⟩ | ⟨hup, hin, hclose, rfl⟩
      · exact h.skip frames .errorPart (by simp) (by simp [frames]) rfl rfl rfl (fun _ => hreg)
          (fun _ => rfl)
      · exact closes hclose h.mask hactive hreg.1 (h.opened hopen).1 .closed (by simp) (by simp)
          fun _ => h.mask.not_readable hup hin
  | closed =>
      obtain ⟨rfl, rfl⟩ := Ctx.runFrame_closeCallback hx
      exact h.closeCallback frames .errorPart (by simp) (by simp)
  | read =>
      obtain ⟨rfl, rfl⟩ := Ctx.runFrame_closeCallback hx
      exact h.closeCallback frames .writePart (by simp) (by simp)
  | errorPart =>
      obtain ⟨rfl, rfl⟩ := Ctx.runFrame_errorPart hx
      exact h.skip frames .readPart (by simp) (by simp [frames]) rfl rfl rfl
        (fun hopen => h.registered hopen hmem (by simp)) (fun _ => rfl)
  | readPart =>
      rcases Ctx.runFrame_readPart hx with ⟨rfl, rfl⟩ | ⟨hhas, y, hread, hend⟩
      · exact h.skip frames .writePart (by simp) (by simp [frames]) rfl rfl rfl
          (fun hopen => h.registered hopen hmem (by simp)) (fun _ => rfl)
      · have hopen : s.conn.state ≠ .kDisconnected := by
          intro hs
          have hnot := (h.closed hs).1.readPart hmem
          rw [ctx_conn, hnot] at hhas
          simp at hhas
        have hreg := h.registered hopen hmem (by simp)
        rcases hend with ⟨rfl, rfl⟩ | ⟨hclose, rfl⟩
        · exact h.message frames hopen hread
        · have hchannel : y.conn.channel = s.conn.channel := hread.channel
          obtain ⟨⟨n, hn⟩, -, -⟩ := h.opened hopen
          obtain ⟨limit, ret, hlog⟩ := hread.log
          refine closes hclose (by rw [hchannel]; exact h.mask) hactive
            (by rw [hchannel]; exact hreg.1) ⟨n, ?_⟩ .read (by simp) (by simp) (by simp)
          rw [hlog, callbacks_append_noCallback (by simp [Entry.isCallback])]
          exact hn
  | writePart =>
      rcases Ctx.runFrame_writePart hx with ⟨rfl, rfl | ⟨-, hwrite⟩⟩
      · exact h.skip frames .idle (by simp) (by simp [frames]) rfl rfl rfl
          (fun hopen => h.registered hopen hmem (by simp)) (fun _ => rfl)
      · have hout := Ctx.handleWrite_outputStep hwrite
        refine h.skip frames .idle (by simp) (by simp [frames]) hout.state hout.revents
          hout.callbacks (fun hopen => ?_) (fun hs => ?_)
        · exact registered_output hout (h.registered hopen hmem (by simp))
        · have hnot : s.conn.channel.isWriting = false := (h.closed hs).1.writing
          rw [Ctx.handleWrite_not_writing hnot, Except.ok.injEq] at hwrite
          rw [← hwrite]
          rfl
  | destoryStore =>
      have hopen : s.conn.state ≠ .kDisconnected := fun hs =>
        (h.closed hs).1.destoryStore hmem
      have hreg := h.registered hopen hmem (by simp)
      obtain ⟨hclose, rfl⟩ := Ctx.runFrame_destoryStore hx
      exact closes hclose h.mask hactive hreg.1 (h.opened hopen).1 .destoryRemove (by simp)
        (by simp) (by simp)
  | destoryRemove =>
      obtain ⟨hremove, rfl⟩ := Ctx.runFrame_destoryRemove hx
      exact h.destoryRemove hstarted frames hremove

theorem functor (h : Discipline s) (hstarted : Started s) (hord : Ordered s) (hloop : OnLoop s)
    {f : Functor} {rest : List Functor} {io : Io} {x : Ctx} {fs : List Frame}
    (idle : s.LoopIdle) (phase : s.phase = .functors) (batch : s.batch = f :: rest)
    (hx : s.ctx.runFunctor s.mem io f = .ok (x, fs)) :
    Discipline { s.put x with batch := rest, frames := fs } := by
  have hmem : f ∈ s.todo := by simp [todo, batch]
  have hactive : s.active = false := by
    by_contra hne
    have hphase := hord.active (by simpa using hne)
    rw [phase] at hphase
    simp at hphase
  obtain ⟨hcall, hshut⟩ := hloop.todo f hmem
  cases f with
  | sendInLoop c call => simp [Functor.callOf] at hcall
  | shutdownInLoop c => simp [Functor.isShutdown] at hshut
  | connectEstablished c =>
      have hest := hstarted.todo _ hmem
      simp [Functor.isEstablish] at hest
  | writeComplete c | highWaterMark c n =>
      obtain ⟨rfl, rfl⟩ := Ctx.runFunctor_userCallback rfl hx
      exact h.same idle.frames.symm rfl rfl rfl rfl (Or.inl rfl)
  | removeConnectionInLoop c =>
      obtain ⟨rfl, rfl⟩ := Ctx.runFunctor_removeConnectionInLoop hx
      exact h.same idle.frames.symm rfl rfl rfl rfl (Or.inl rfl)
  | connectDestoryed c =>
      obtain ⟨rfl, rfl⟩ := Ctx.runFunctor_connectDestoryed hx
      have hlog : callbacks (s.log ++ [.destoryBegin]) = callbacks s.log :=
        callbacks_append_noCallback (by simp [Entry.isCallback])
      have hnot : ∀ hact : s.active = true, False := by
        intro hact
        rw [hactive] at hact
        simp at hact
      by_cases hconn : s.conn.state = .kConnected
      · obtain ⟨⟨n, hn⟩, -, hreg⟩ := h.opened (by simp [hconn])
        have hreg : Registered s := by
          rcases hreg with hreg | hrem
          · exact hreg
          · rw [hrem.state] at hconn
            simp at hconn
        rw [ctx_conn, if_pos hconn]
        refine ⟨.destoryStore, h.mask, fun hact => (hnot hact).elim, fun heq => by simp at heq,
          fun _ => ⟨⟨n, hlog.trans hn⟩, by simp, Or.inl hreg⟩, fun hs => ?_⟩
        have hs : s.conn.state = .kDisconnected := hs
        rw [hs] at hconn
        simp at hconn
      · rw [ctx_conn, if_neg hconn]
        refine ⟨.destoryRemove, h.mask, fun hact => (hnot hact).elim, fun _ => hconn,
          fun hne => ?_, fun hs => ?_⟩
        · obtain ⟨⟨n, hn⟩, -, hreg⟩ := h.opened hne
          refine ⟨⟨n, hlog.trans hn⟩, by simp, ?_⟩
          rcases hreg with hreg | hrem
          · exact Or.inl hreg
          · exact Or.inr ⟨hrem.state, hrem.index, hactive, by simp⟩
        · obtain ⟨hfin, hcb⟩ := h.closed hs
          refine ⟨⟨hactive, hfin.index, hfin.writing, by simp, by simp, by simp⟩, ?_⟩
          rcases hcb with ⟨n, hn⟩ | ⟨⟨n, hn⟩, -⟩
          · exact Or.inl ⟨n, hlog.trans hn⟩
          · exact Or.inr ⟨⟨n, hlog.trans hn⟩, by simp⟩

theorem step (h : Discipline s) (hstarted : Started s) (hord : Ordered s) (hag : s.ctx.Agrees)
    (hloop : OnLoop s) (hmask : PlausibleMask a) (hstep : Step s a s') : Discipline s' := by
  cases hstep with
  | aside hs =>
      exact h.same hs.frames hs.active (by rw [hs.channel]) (by rw [hs.log]) hs.state
        (Or.inl hs.channel)
  | poke hp => exact h.same rfl rfl rfl rfl rfl (Or.inl rfl)
  | @reported revents mask idle hreg =>
      have hadded : s.conn.channel.index = .kAdded := by
        cases hi : s.conn.channel.index with
        | kAdded => rfl
        | kNew | kDeleted =>
            simp only [Ctx.Agrees, Channel.Agrees, ctx_conn, ctx_poller, hi] at hag
            rw [hag.2] at hreg
            simp at hreg
      have hopen : s.conn.state ≠ .kDisconnected := fun hs => (h.closed hs).1.index hadded
      obtain ⟨hup, hnot, hreg⟩ := h.opened hopen
      refine ⟨h.shape, hmask, fun _ => idle.frames, h.removing, fun _ => ⟨hup, hnot, ?_⟩,
        fun hs => absurd hs hopen⟩
      rcases hreg with hreg | hrem
      · exact Or.inl hreg
      · rw [hrem.index] at hadded
        simp at hadded
  | handleEvent idle phase hactive =>
      have hopen : s.conn.state ≠ .kDisconnected := by
        intro hs
        rw [(h.closed hs).1.active] at hactive
        simp at hactive
      obtain ⟨⟨n, hn⟩, -, hreg⟩ := h.opened hopen
      refine ⟨.closePart, h.mask, fun hact => ?_, fun heq => ?_, fun _ => ⟨⟨n, ?_⟩, ?_, ?_⟩,
        fun hs => absurd hs hopen⟩
      · simp [ConnSystem.handleEvent] at hact
      · simp [ConnSystem.handleEvent, Ctx.handelEventWithGuard] at heq
      · show callbacks (s.log ++ [.handleEvent s.conn.channel.revents]) = _
        rw [callbacks_append_noCallback (by simp [Entry.isCallback])]
        exact hn
      · simp [ConnSystem.handleEvent, Ctx.handelEventWithGuard]
      · rcases hreg with hreg | hrem
        · exact Or.inl hreg
        · rw [hrem.active] at hactive
          simp at hactive
  | send pc state len read | shutdownIgnored pc state | shutdown pc state
  | sendQueued pc other =>
      exact h.same rfl rfl rfl (callbacks_append_noCallback (by simp [Entry.isCallback])) rfl
        (Or.inl rfl)
  | @sendInLoop call w x pc hx =>
      have hout := Ctx.sendInLoop_outputStep hx
      have hkeep : Registered s → Registered (s.put x) := registered_output hout
      refine h.same rfl rfl hout.revents ?_ hout.state
        (Or.inr ⟨hloop.calling call pc, hkeep⟩)
      show callbacks (x.log ++ [.returned call]) = callbacks s.log
      rw [callbacks_append_noCallback (by simp [Entry.isCallback]), hout.callbacks]
      rfl
  | @shutdownStore t pc =>
      have ht : t = s.loopTid := hloop.eq_loopTid (by simp [pc])
      have hconn : s.conn.state = .kConnected := hloop.seen (by rw [← ht]; exact pc)
      obtain ⟨⟨n, hn⟩, hnot, hreg⟩ := h.opened (by simp [hconn])
      refine ⟨h.shape, h.mask, h.active, fun _ => ?_, fun _ => ⟨⟨n, ?_⟩, hnot, ?_⟩, fun hs => ?_⟩
      · simp [setPc, Ctx.shutdownStore]
      · show callbacks (s.log ++ [.stored .kDisconnecting]) = _
        rw [callbacks_append_noCallback (by simp [Entry.isCallback])]
        exact hn
      · rcases hreg with hreg | hrem
        · exact Or.inl hreg
        · rw [hrem.state] at hconn
          simp at hconn
      · simp [setPc, Ctx.shutdownStore] at hs
  | shutdownInLoop pc =>
      have hout := Ctx.shutdownInLoop_outputStep (x := s.ctx)
      refine h.same rfl rfl hout.revents hout.callbacks hout.state (Or.inl ?_)
      show s.ctx.shutdownInLoop.conn.channel = s.conn.channel
      rw [Ctx.shutdownInLoop_conn]
      rfl
  | shutdownQueued pc other => exact h.same rfl rfl rfl rfl rfl (Or.inl rfl)
  | frame pc frames hx => exact h.frame hstarted frames hx
  | functor idle phase batch hx => exact h.functor hstarted hord hloop idle phase batch hx

end Discipline

/-- What holds along a run on the loop's thread with masks that occur. -/
structure Disciplined (s : ConnSystem) : Prop where
  run : LoopRun s
  discipline : Discipline s
  established : .establish ∈ s.log

theorem Established.disciplined (h : Established s) : Disciplined s := by
  obtain ⟨es, -, hlog⟩ := h.log
  exact ⟨h.loopRun, h.discipline, by rw [hlog]; simp⟩

theorem Disciplined.step (h : Disciplined s) (hstarted : Started s) (hord : Ordered s)
    (hag : s.ctx.Agrees) (hloop : LoopOnly s a) (hmask : PlausibleMask a) (hen : s.Enabled a)
    (hstep : Step s a s') : Disciplined s' := by
  obtain ⟨hrun, hdis, hest⟩ := h
  obtain ⟨es, hes⟩ := hstep.log_grows
  refine ⟨hrun.step hstarted hloop hen hstep,
    hdis.step hstarted hord hag hrun.onLoop hmask hstep, ?_⟩
  rw [hes]
  exact List.mem_append_left _ hest

theorem disciplined_of_reachable
    (h : (lts.restrict fun s a => LoopOnly s a ∧ PlausibleMask a).Reachable s) :
    Fresh s ∨ (Started s ∧ Disciplined s) := by
  refine reachable_induct h (fun m hm => hm.disciplined) ?_
  rintro m a m' hr hstarted hdis ⟨hloop, hmask⟩ hen hstep
  exact hdis.step hstarted (Ordered.of_reachable hr) (agrees_of_reachable hr) hloop hmask hen
    hstep

/-- On its own loop a connection comes up once, before anything else; then it has messages;
then it goes down at most once, and the close callback is called at most once after that. -/
theorem callbacks_disciplined
    (h : (lts.restrict fun s a => LoopOnly s a ∧ PlausibleMask a).Reachable s) :
    (.establish ∉ s.log ∧ callbacks s.log = []) ∨
      (.establish ∈ s.log ∧ ∃ n, ∃ ending ∈ [[], [.connectionCallback false],
          [.connectionCallback false, .closeCallback]],
        callbacks s.log =
          .connectionCallback true :: List.replicate n .messageCallback ++ ending) := by
  rcases disciplined_of_reachable h with hfresh | ⟨-, -, hdis, hest⟩
  · refine Or.inl ⟨?_, ?_⟩
    · intro hmem
      obtain ⟨t, ht⟩ := hfresh.log _ hmem
      simp at ht
    · refine callbacks_of_noCallback ?_
      intro e he
      obtain ⟨t, rfl⟩ := hfresh.log e he
      rfl
  · refine Or.inr ⟨hest, ?_⟩
    by_cases hs : s.conn.state = .kDisconnected
    · obtain ⟨-, ⟨n, hn⟩ | ⟨⟨n, hn⟩, -⟩⟩ := hdis.closed hs
      · exact ⟨n, [.connectionCallback false], by simp, hn⟩
      · exact ⟨n, [.connectionCallback false, .closeCallback], by simp, hn⟩
    · obtain ⟨⟨n, hn⟩, -⟩ := hdis.opened hs
      exact ⟨n, [], by simp, by rw [hn, List.append_nil]; rfl⟩

/-- Two messages, the second with the peer's close behind it, and `connectDestoryed`. -/
theorem callbacks_disciplined_closed : ∃ s : ConnSystem, Entry.destoryEnd ∈ s.log ∧
    ∃ n, ∃ ending ∈ [[], [.connectionCallback false],
        [.connectionCallback false, .closeCallback]],
      callbacks s.log =
        .connectionCallback true :: List.replicate n .messageCallback ++ ending := by
  obtain ⟨s, hr, hmem, hest⟩ := exists_of_endsWith
    (fun s a => LoopOnly s a ∧ PlausibleMask a) []
    (eventRead EPOLLIN 3 ++ [Action.swap, .batchEnd] ++ eventRead (EPOLLIN ||| EPOLLHUP) 2 ++
      [Action.swap, .batchEnd] ++ eventRead (EPOLLIN ||| EPOLLHUP) 0 ++ [Action.frame (wrote 0),
      .queueDestory, .swap, .functor (wrote 0), .frame (wrote 0), .batchEnd])
    (fun s => Entry.destoryEnd ∈ s.log ∧ Entry.establish ∈ s.log) (by decide +kernel)
  rcases callbacks_disciplined hr with ⟨hnot, -⟩ | ⟨-, hcb⟩
  · exact absurd hest hnot
  · exact ⟨s, hmem, hcb⟩

end ConnSystem

end Muduo
