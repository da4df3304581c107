import Dtnme.Dtpc.PayloadAggregator

/-! # The life of an acknowledged DTPC PDU

A PDU with transmission service is listed when its transmitted event is handled, and sent
again each time its retransmit timer expires, until it is acknowledged or its lifetime is
over. Transmitted events and delete requests hold a raw reference to the PDU and wait at
the back of the queue of the daemon; acknowledgements and timer events are put at its head
and name the PDU by its key.
-/

namespace Dtnme.Dtpc

open Dtnme.Library

/-- A profile with transmission service. Only such a profile makes PDUs to acknowledge. -/
structure TransportProfile extends Profile where
  limit_pos : 0 < retransmissionLimit
  deriving DecidableEq

/-- A received acknowledgement: its key, and the other key it may be known under. -/
structure Ack where
  key : String
  ionAltKey : Option String
  deriving DecidableEq, Repr

/-- The events of the daemon for one PDU. -/
inductive DaemonEvent
  | transmitted
  | timerExpired
  | deleteRequest
  | ackReceived (ack : Ack)
  deriving DecidableEq, Repr

/-- A PDU, its place in `unacked_pdu_list_` and its events. `transmissions` counts the bundles
sent for it, and `acked` tells that a matching acknowledgement was handled. -/
structure UnackedPdu where
  key : String
  creationTs : ℕ
  retransmitCount : ℕ := 0
  retransmitTimer : Option ℕ := none
  running : List ℕ := []
  nextTimer : ℕ := 0
  listed : Bool := false
  deleted : Bool := false
  queue : List DaemonEvent
  transmissions : ℕ
  acked : Bool := false
  deriving DecidableEq, Repr

namespace UnackedPdu

/-- `transmit_pdu`, for a profile with transmission service. -/
def transmitPdu (key : String) (creationTs : ℕ) : UnackedPdu :=
  { key, creationTs, queue := [.transmitted], transmissions := 1 }

/-- `DtpcDaemon::post`. -/
def post (s : UnackedPdu) (e : DaemonEvent) : UnackedPdu := { s with queue := s.queue ++ [e] }

/-- `DtpcDaemon::post_at_head`. -/
def postAtHead (s : UnackedPdu) (e : DaemonEvent) : UnackedPdu := { s with queue := e :: s.queue }

/-- Read the PDU through a pointer. -/
def deref (s : UnackedPdu) : Except Fault Unit :=
  if s.deleted then .error .usedAfterDelete else .ok ()

/-- List the PDU, if it is not listed yet. -/
def list (s : UnackedPdu) : UnackedPdu := { s with listed := true }

/-- Start a new retransmit timer and remember it. -/
def startTimer (s : UnackedPdu) : UnackedPdu :=
  { s with
    retransmitTimer := some s.nextTimer
    running := s.nextTimer :: s.running
    nextTimer := s.nextTimer + 1 }

/-- `handle_dtpc_transmitted_event`. -/
def handleTransmitted (s : UnackedPdu) : Except Fault UnackedPdu := do
  s.deref
  return s.list.startTimer

/-- Cancel the retransmit timer, if there is one, and forget it. -/
def cancelTimer (s : UnackedPdu) : UnackedPdu :=
  match s.retransmitTimer with
  | none => s
  | some id => { s with retransmitTimer := none, running := s.running.erase id }

/-- Take the PDU off `unacked_pdu_list_`. -/
def unlist (s : UnackedPdu) : UnackedPdu := { s with listed := false }

/-- `handle_dtpc_delete_request`. -/
def handleDeleteRequest (s : UnackedPdu) : Except Fault UnackedPdu := do
  s.deref
  return s.cancelTimer.unlist

/-- The seconds left, in unsigned arithmetic. -/
def expirationRemaining (s : UnackedPdu) (p : TransportProfile) (now : ℕ) : ℕ :=
  u64Sub (u64 (s.creationTs + p.expiration)) now

/-- Post a bundle with the data of the PDU. -/
def sendBundle (s : UnackedPdu) : UnackedPdu := { s with transmissions := s.transmissions + 1 }

/-- `retransmit_pdu`. -/
def retransmitPdu (s : UnackedPdu) (p : TransportProfile) (now : ℕ) : UnackedPdu :=
  if p.retransmissionLimit ≤ s.retransmitCount then s.post .deleteRequest
  else if p.expiration ≤ s.expirationRemaining p now then s.post .deleteRequest
  else if p.retransmissionLimit ≤ s.retransmitCount then s.sendBundle.post .deleteRequest
  else s.sendBundle.post .transmitted

def clearTimer (s : UnackedPdu) : UnackedPdu := { s with retransmitTimer := none }

/-- `handle_dtpc_retransmit_timer_expired`. -/
def handleTimerExpired (s : UnackedPdu) (p : TransportProfile) (now : ℕ) : Except Fault UnackedPdu :=
  if s.listed then do
    s.deref
    return s.clearTimer.retransmitPdu p now
  else .ok s

/-- The acknowledgement is for this PDU. The other key counts when the first one names no
other listed PDU. -/
def MatchedBy (s : UnackedPdu) (others : List String) (a : Ack) : Prop :=
  a.key = s.key ∨ a.key ∉ others ∧ a.ionAltKey = some s.key

instance (s : UnackedPdu) (others : List String) (a : Ack) : Decidable (s.MatchedBy others a) :=
  inferInstanceAs (Decidable (_ ∨ _))

/-- `delete pdu`. -/
def delete (s : UnackedPdu) : UnackedPdu := { s with deleted := true }

def markAcked (s : UnackedPdu) : UnackedPdu := { s with acked := true }

/-- `handle_dtpc_ack_received_event`, where `others` are the keys of the other listed PDUs. -/
def handleAckReceived (s : UnackedPdu) (others : List String) (a : Ack) :
    Except Fault UnackedPdu :=
  if s.MatchedBy others a then
    if s.listed then do
      s.deref
      return s.cancelTimer.unlist.delete.markAcked
    else .ok s.markAcked
  else .ok s

/-- Dispatch of one event that was taken off the queue. -/
def dispatch (s : UnackedPdu) (p : TransportProfile) (now : ℕ) (others : List String) :
    DaemonEvent → Except Fault UnackedPdu
  | .transmitted => s.handleTransmitted
  | .timerExpired => s.handleTimerExpired p now
  | .deleteRequest => s.handleDeleteRequest
  | .ackReceived a => s.handleAckReceived others a

/-- A timer fires, an acknowledgement comes in, or the daemon handles the event at the head of its
queue. -/
inductive Input
  | fire (id : ℕ)
  | ackArrives (ack : Ack)
  | handle (now : ℕ) (others : List String)
  deriving DecidableEq, Repr

/-- A timer that is still running fires. -/
def fireTimer (s : UnackedPdu) (id : ℕ) : UnackedPdu :=
  if id ∈ s.running then postAtHead { s with running := s.running.erase id } .timerExpired else s

/-- The queue after its head is taken. -/
def popTo (s : UnackedPdu) (rest : List DaemonEvent) : UnackedPdu := { s with queue := rest }

def step (p : TransportProfile) (s : UnackedPdu) : Input → Except Fault UnackedPdu
  | .fire id => .ok (s.fireTimer id)
  | .ackArrives a => .ok (s.postAtHead (.ackReceived a))
  | .handle now others =>
    match s.queue with
    | [] => .ok s
    | e :: rest => (s.popTo rest).dispatch p now others e

/-- No event that holds a reference to the PDU is waiting. -/
def Unreferenced (s : UnackedPdu) : Prop :=
  .transmitted ∉ s.queue ∧ (s.listed = true → .deleteRequest ∉ s.queue)

/-- The condition on one event: a matching acknowledgement overtakes no event that refers to the
PDU, and after `retransmissionLimit` retransmissions the timer expires after the lifetime. -/
def Orderly (p : TransportProfile) (now : ℕ) (others : List String) (s : UnackedPdu) : DaemonEvent → Prop
  | .ackReceived a => s.MatchedBy others a → s.Unreferenced
  | .timerExpired => s.listed = true →
    s.transmissions ≤ p.retransmissionLimit ∨ p.expiration ≤ s.expirationRemaining p now
  | _ => True

def Allowed (p : TransportProfile) (s : UnackedPdu) : Input → Prop
  | .handle now others =>
    match s.queue with
    | [] => True
    | e :: rest => Orderly p now others (s.popTo rest) e
  | _ => True

/-- What an acknowledgement and the retransmission limit promise of a state. -/
structure Promise (p : TransportProfile) (s : UnackedPdu) : Prop where
  unlisted : s.acked = true → s.listed = false
  bounded : s.transmissions ≤ 1 + p.retransmissionLimit

/-- The promise along a life: no handler faults, and nothing is sent after the acknowledgement. -/
def Finished (p : TransportProfile) (s : UnackedPdu) (inputs : List Input) : Prop :=
  (∀ n, ∃ t, run (step p) s (inputs.take n) = .ok t ∧ t.Promise p) ∧
    ∀ m n t u, m ≤ n → run (step p) s (inputs.take m) = .ok t → t.acked = true →
      run (step p) s (inputs.take n) = .ok u → u.transmissions = t.transmissions

/-- The invariant of orderly lives. -/
structure Sound (p : TransportProfile) (s : UnackedPdu) : Prop extends Promise p s where
  deleted : s.deleted = true → s.acked = true ∧ .deleteRequest ∉ s.queue
  acked : s.acked = true → .transmitted ∉ s.queue
  uncounted : s.retransmitCount = 0

variable {p : TransportProfile} {s t : UnackedPdu} {now : ℕ} {others : List String}

theorem deref_of (h : s.deleted = false) : s.deref = .ok () := by simp [deref, h]

/-- Cancelling touches nothing but the timers. -/
theorem cancelTimer_eq (s : UnackedPdu) :
    ∃ running, s.cancelTimer = { s with retransmitTimer := none, running := running } := by
  unfold cancelTimer
  split
  · rename_i h
    exact ⟨s.running, by rw [← h]⟩
  · exact ⟨_, rfl⟩

theorem handleTransmitted_of (h : s.deleted = false) :
    s.handleTransmitted = .ok s.list.startTimer := by
  simp only [handleTransmitted, bind, Except.bind, deref_of h]
  rfl

theorem handleDeleteRequest_of (h : s.deleted = false) :
    s.handleDeleteRequest = .ok s.cancelTimer.unlist := by
  simp only [handleDeleteRequest, bind, Except.bind, deref_of h]
  rfl

theorem handleTimerExpired_of (h : s.deleted = false) (hlisted : s.listed = true) :
    s.handleTimerExpired p now = .ok (s.clearTimer.retransmitPdu p now) := by
  simp only [handleTimerExpired, hlisted, if_true, bind, Except.bind, deref_of h]
  rfl

theorem handleTimerExpired_unlisted (h : s.listed = false) :
    s.handleTimerExpired p now = .ok s := by
  simp [handleTimerExpired, h]

theorem handleAckReceived_of {a : Ack} (h : s.deleted = false) (hlisted : s.listed = true)
    (hmatch : s.MatchedBy others a) :
    s.handleAckReceived others a = .ok s.cancelTimer.unlist.delete.markAcked := by
  simp only [handleAckReceived, hmatch, hlisted, if_true, bind, Except.bind, deref_of h]
  rfl

theorem handleAckReceived_unlisted {a : Ack} (h : s.listed = false)
    (hmatch : s.MatchedBy others a) : s.handleAckReceived others a = .ok s.markAcked := by
  simp [handleAckReceived, hmatch, h]

theorem handleAckReceived_other {a : Ack} (hmatch : ¬ s.MatchedBy others a) :
    s.handleAckReceived others a = .ok s := by
  simp [handleAckReceived, hmatch]

/-- The count of retransmissions stays 0, so only the lifetime ends them. -/
theorem retransmitPdu_eq (hcount : s.retransmitCount = 0) :
    s.retransmitPdu p now = if p.expiration ≤ s.expirationRemaining p now
      then s.post .deleteRequest else s.sendBundle.post .transmitted := by
  have hlimit : ¬ p.retransmissionLimit ≤ s.retransmitCount := by
    rw [hcount]
    exact not_le.mpr p.limit_pos
  simp only [retransmitPdu, hlimit, if_false]

/-- What one step keeps: the invariant, and silence after the acknowledgement. -/
structure Kept (p : TransportProfile) (s t : UnackedPdu) : Prop where
  sound : Sound p t
  silent : s.acked = true → t.acked = true ∧ t.transmissions = s.transmissions

theorem Sound.of_not_acked (hacked : t.acked = false) (hdeleted : t.deleted = false)
    (hcount : t.retransmitCount = 0) (hbounded : t.transmissions ≤ 1 + p.retransmissionLimit) :
    Sound p t := by
  constructor
  · constructor
    · simp [hacked]
    · exact hbounded
  · simp [hdeleted]
  · simp [hacked]
  · exact hcount

theorem Sound.not_deleted (h : Sound p s) (hacked : s.acked = false) : s.deleted = false := by
  by_contra hdeleted
  simp [(h.deleted (by simpa using hdeleted)).1] at hacked

theorem Sound.not_acked (h : Sound p s) (hlisted : s.listed = true) : s.acked = false := by
  by_contra hacked
  simp [h.unlisted (by simpa using hacked)] at hlisted

theorem Sound.pop {e : DaemonEvent} {rest : List DaemonEvent} (h : Sound p s)
    (hqueue : s.queue = e :: rest) : Sound p (s.popTo rest) := by
  constructor
  · exact ⟨h.unlisted, h.bounded⟩
  · intro hdeleted
    have := h.deleted hdeleted
    simp only [hqueue, List.mem_cons, not_or] at this
    exact ⟨this.1, this.2.2⟩
  · intro hacked
    have := h.acked hacked
    simp only [hqueue, List.mem_cons, not_or] at this
    exact this.2
  · exact h.uncounted

theorem Sound.dispatch {e : DaemonEvent} {rest : List DaemonEvent} (h : Sound p s)
    (hqueue : s.queue = e :: rest) (hok : Orderly p now others (s.popTo rest) e) :
    ∃ t, (s.popTo rest).dispatch p now others e = .ok t ∧ Kept p s t := by
  have hpop := h.pop hqueue
  cases e with
  | transmitted =>
    have hacked : s.acked = false := by
      by_contra hacked
      exact h.acked (by simpa using hacked) (by simp [hqueue])
    refine ⟨_, handleTransmitted_of (hpop.not_deleted hacked), ?_, by simp [hacked]⟩
    exact Sound.of_not_acked hacked (hpop.not_deleted hacked) hpop.uncounted hpop.bounded
  | deleteRequest =>
    have hdeleted : s.deleted = false := by
      by_contra hdeleted
      exact (h.deleted (by simpa using hdeleted)).2 (by simp [hqueue])
    obtain ⟨running, hcancel⟩ := cancelTimer_eq (s.popTo rest)
    refine ⟨_, handleDeleteRequest_of hdeleted, ?_⟩
    rw [hcancel]
    constructor
    · constructor
      · exact ⟨fun _ => rfl, hpop.bounded⟩
      · intro hd
        exact absurd (hdeleted.symm.trans hd) Bool.false_ne_true
      · exact hpop.acked
      · exact hpop.uncounted
    · exact fun hacked => ⟨hacked, rfl⟩
  | timerExpired =>
    cases hlisted : s.listed with
    | false => exact ⟨_, handleTimerExpired_unlisted hlisted, hpop, fun hacked => ⟨hacked, rfl⟩⟩
    | true =>
      have hacked := h.not_acked hlisted
      have hdeleted := hpop.not_deleted hacked
      refine ⟨_, handleTimerExpired_of hdeleted hlisted, ?_, by simp [hacked]⟩
      have hcount : (s.popTo rest).clearTimer.retransmitCount = 0 := hpop.uncounted
      rw [retransmitPdu_eq hcount]
      split_ifs with hover
      · exact Sound.of_not_acked hacked hdeleted hpop.uncounted hpop.bounded
      · have hlimit : s.transmissions ≤ p.retransmissionLimit := (hok hlisted).resolve_right hover
        exact Sound.of_not_acked hacked hdeleted hpop.uncounted (by
          change s.transmissions + 1 ≤ 1 + p.retransmissionLimit
          omega)
  | ackReceived a =>
    by_cases hmatch : (s.popTo rest).MatchedBy others a
    · obtain ⟨htransmitted, hdelete⟩ := hok hmatch
      cases hlisted : s.listed with
      | false =>
        refine ⟨_, handleAckReceived_unlisted hlisted hmatch, ?_, fun _ => ⟨rfl, rfl⟩⟩
        constructor
        · exact ⟨fun _ => hlisted, hpop.bounded⟩
        · intro hdeleted
          exact ⟨rfl, (hpop.deleted hdeleted).2⟩
        · intro
          exact htransmitted
        · exact hpop.uncounted
      | true =>
        have hacked := h.not_acked hlisted
        obtain ⟨running, hcancel⟩ := cancelTimer_eq (s.popTo rest)
        refine ⟨_, handleAckReceived_of (hpop.not_deleted hacked) hlisted hmatch, ?_,
          by simp [hacked]⟩
        rw [hcancel]
        constructor
        · exact ⟨fun _ => rfl, hpop.bounded⟩
        · intro
          exact ⟨rfl, hdelete hlisted⟩
        · intro
          exact htransmitted
        · exact hpop.uncounted
    · exact ⟨_, handleAckReceived_other hmatch, hpop, fun hacked => ⟨hacked, rfl⟩⟩

theorem Sound.postAtHead {e : DaemonEvent} (h : Sound p s) (ht : e ≠ .transmitted)
    (hd : e ≠ .deleteRequest) : Sound p (s.postAtHead e) := by
  constructor
  · exact ⟨h.unlisted, h.bounded⟩
  · intro hdeleted
    have := h.deleted hdeleted
    simp [UnackedPdu.postAtHead, this, hd.symm]
  · intro hacked
    have := h.acked hacked
    simp [UnackedPdu.postAtHead, this, ht.symm]
  · exact h.uncounted

theorem Sound.step {i : Input} (h : Sound p s) (hok : Allowed p s i) :
    ∃ t, UnackedPdu.step p s i = .ok t ∧ Kept p s t := by
  cases i with
  | fire id =>
    refine ⟨_, rfl, ?_⟩
    unfold fireTimer
    split_ifs
    · have hbefore : Sound p { s with running := s.running.erase id } := { h with }
      exact ⟨hbefore.postAtHead nofun nofun, fun hacked => ⟨hacked, rfl⟩⟩
    · exact ⟨h, fun hacked => ⟨hacked, rfl⟩⟩
  | ackArrives a => exact ⟨_, rfl, h.postAtHead nofun nofun, fun hacked => ⟨hacked, rfl⟩⟩
  | handle now others =>
    cases hqueue : s.queue with
    | nil => exact ⟨s, by simp [UnackedPdu.step, hqueue], h, fun hacked => ⟨hacked, rfl⟩⟩
    | cons e rest =>
      simp only [Allowed, hqueue] at hok
      simp only [UnackedPdu.step, hqueue]
      exact h.dispatch hqueue hok

theorem Sound.run {inputs : List Input} (h : Sound p s)
    (hok : Meets (UnackedPdu.step p) (Allowed p) s inputs) :
    ∃ t, Library.run (UnackedPdu.step p) s inputs = .ok t ∧ Kept p s t := by
  have hstep : ∀ t (past : List Input) i, Kept p s t → Allowed p t i →
      ∃ u, UnackedPdu.step p t i = .ok u ∧ Kept p s u := by
    intro t past i ht hi
    obtain ⟨u, hu, hkept⟩ := ht.sound.step hi
    refine ⟨u, hu, hkept.sound, ?_⟩
    intro hacked
    obtain ⟨htacked, htsame⟩ := ht.silent hacked
    obtain ⟨huacked, husame⟩ := hkept.silent htacked
    exact ⟨huacked, husame.trans htsame⟩
  exact run_invariant (fun t _ => Kept p s t) hstep ⟨h, fun hacked => ⟨hacked, rfl⟩⟩ hok

theorem sound_transmitPdu (p : TransportProfile) (key : String) (creationTs : ℕ) :
    Sound p (transmitPdu key creationTs) :=
  Sound.of_not_acked rfl rfl rfl (Nat.le_add_right 1 _)

/-- An acknowledgement was handled while an event that refers to the PDU is still to come. -/
def Overtaken (s : UnackedPdu) : Prop :=
  s.acked = true ∧
    (.transmitted ∈ s.queue ∨ s.deleted = true ∧ .deleteRequest ∈ s.queue)

theorem deref_deleted (h : s.deleted = true) : s.deref = .error .usedAfterDelete := by
  simp [deref, h]

/-- The overtaken event stays until its handler reads a deleted PDU or lists the PDU again. -/
theorem Overtaken.dispatch {e : DaemonEvent} {rest : List DaemonEvent} (h : s.Overtaken)
    (hqueue : s.queue = e :: rest) (hlisted : s.listed = false)
    (hnext : (s.popTo rest).dispatch p now others e = .ok t) (ht : t.Promise p) :
    t.Overtaken := by
  obtain ⟨hacked, hevent⟩ := h
  rw [hqueue] at hevent
  cases e with
  | transmitted =>
    cases hdeleted : s.deleted with
    | true =>
      have hfault : (s.popTo rest).deref = .error .usedAfterDelete := deref_deleted hdeleted
      simp [UnackedPdu.dispatch, handleTransmitted, bind, Except.bind, hfault] at hnext
    | false =>
      have hlive : (s.popTo rest).deleted = false := hdeleted
      simp only [UnackedPdu.dispatch, handleTransmitted_of hlive, Except.ok.injEq] at hnext
      subst hnext
      exact absurd (ht.unlisted hacked) (by simp [list, startTimer])
  | deleteRequest =>
    cases hdeleted : s.deleted with
    | true =>
      have hfault : (s.popTo rest).deref = .error .usedAfterDelete := deref_deleted hdeleted
      simp [UnackedPdu.dispatch, handleDeleteRequest, bind, Except.bind, hfault] at hnext
    | false =>
      have hlive : (s.popTo rest).deleted = false := hdeleted
      obtain ⟨running, hcancel⟩ := cancelTimer_eq (s.popTo rest)
      simp only [UnackedPdu.dispatch, handleDeleteRequest_of hlive, Except.ok.injEq] at hnext
      subst hnext
      rw [hcancel]
      simp only [hdeleted, Bool.false_eq_true, false_and, or_false, List.mem_cons, reduceCtorEq,
        false_or] at hevent
      exact ⟨hacked, Or.inl hevent⟩
  | timerExpired =>
    have hpop : (s.popTo rest).listed = false := hlisted
    simp only [UnackedPdu.dispatch, handleTimerExpired_unlisted hpop, Except.ok.injEq] at hnext
    subst hnext
    simp only [List.mem_cons, reduceCtorEq, false_or] at hevent
    exact ⟨hacked, hevent⟩
  | ackReceived a =>
    have hpop : (s.popTo rest).listed = false := hlisted
    simp only [List.mem_cons, reduceCtorEq, false_or] at hevent
    by_cases hmatch : (s.popTo rest).MatchedBy others a
    · simp only [UnackedPdu.dispatch, handleAckReceived_unlisted hpop hmatch,
        Except.ok.injEq] at hnext
      subst hnext
      exact ⟨rfl, hevent⟩
    · simp only [UnackedPdu.dispatch, handleAckReceived_other hmatch, Except.ok.injEq] at hnext
      subst hnext
      exact ⟨hacked, hevent⟩

theorem Overtaken.postAtHead {e : DaemonEvent} (h : s.Overtaken) :
    (s.postAtHead e).Overtaken := by
  refine ⟨h.1, ?_⟩
  rcases h.2 with h | ⟨hdeleted, h⟩
  · exact Or.inl (List.mem_cons_of_mem _ h)
  · exact Or.inr ⟨hdeleted, List.mem_cons_of_mem _ h⟩

theorem Overtaken.step {i : Input} (h : s.Overtaken) (hlisted : s.listed = false)
    (hnext : UnackedPdu.step p s i = .ok t) (ht : t.Promise p) : t.Overtaken := by
  cases i with
  | fire id =>
    cases hnext
    unfold fireTimer
    split_ifs
    · have hbefore : Overtaken { s with running := s.running.erase id } := h
      exact hbefore.postAtHead
    · exact h
  | ackArrives a =>
    cases hnext
    exact h.postAtHead
  | handle now others =>
    cases hqueue : s.queue with
    | nil => simp [Overtaken, hqueue] at h
    | cons e rest =>
      simp only [UnackedPdu.step, hqueue] at hnext
      exact h.dispatch hqueue hlisted hnext ht

/-- While the promise is kept, the overtaken event is never handled. -/
theorem Overtaken.run {inputs : List Input} (h : s.Overtaken)
    (hall : ∀ n, ∃ t, Library.run (UnackedPdu.step p) s (inputs.take n) = .ok t ∧ t.Promise p) :
    ∃ t, Library.run (UnackedPdu.step p) s inputs = .ok t ∧ t.Overtaken := by
  induction inputs generalizing s with
  | nil => exact ⟨s, rfl, h⟩
  | cons i inputs ih =>
    obtain ⟨s₀, hs₀, hpromise₀⟩ := hall 0
    cases hs₀
    cases hstep : UnackedPdu.step p s i with
    | error e =>
      obtain ⟨t, ht, -⟩ := hall 1
      simp [Library.run, hstep] at ht
    | ok s₁ =>
      have hrest : ∀ n, ∃ t, Library.run (UnackedPdu.step p) s₁ (inputs.take n) = .ok t ∧
          t.Promise p := by
        intro n
        simpa [Library.run, hstep] using hall (n + 1)
      obtain ⟨s₁', hs₁, hpromise₁⟩ := hrest 0
      cases hs₁
      obtain ⟨t, ht, hover⟩ := ih (h.step (hpromise₀.unlisted h.1) hstep hpromise₁) hrest
      exact ⟨t, by simpa [Library.run, hstep] using ht, hover⟩

/-- A step that breaks the condition leaves the event overtaken, or sends once too often. -/
theorem Sound.break_cases {i : Input} (h : Sound p s) (hbreak : ¬ Allowed p s i) :
    ∃ t, UnackedPdu.step p s i = .ok t ∧ (t.Overtaken ∨ ¬ t.Promise p) := by
  cases i with
  | fire => exact absurd trivial hbreak
  | ackArrives => exact absurd trivial hbreak
  | handle now others =>
    cases hqueue : s.queue with
    | nil => simp [Allowed, hqueue] at hbreak
    | cons e rest =>
      simp only [Allowed, hqueue] at hbreak
      simp only [UnackedPdu.step, hqueue]
      have hpop := h.pop hqueue
      cases e with
      | transmitted => exact absurd trivial hbreak
      | deleteRequest => exact absurd trivial hbreak
      | timerExpired =>
        simp only [Orderly, Classical.not_imp, not_or, not_le] at hbreak
        obtain ⟨hlisted, hlimit, htime⟩ := hbreak
        have hdeleted := hpop.not_deleted (hpop.not_acked hlisted)
        refine ⟨_, handleTimerExpired_of hdeleted hlisted, Or.inr ?_⟩
        intro hpromise
        have hcount : (s.popTo rest).clearTimer.retransmitCount = 0 := hpop.uncounted
        have hover : ¬ p.expiration ≤ (s.popTo rest).clearTimer.expirationRemaining p now :=
          not_le.mpr htime
        rw [retransmitPdu_eq hcount, if_neg hover] at hpromise
        have hbounded : (s.popTo rest).transmissions + 1 ≤ 1 + p.retransmissionLimit :=
          hpromise.bounded
        omega
      | ackReceived a =>
        simp only [Orderly, Classical.not_imp, Unreferenced, not_and_or, not_not] at hbreak
        obtain ⟨hmatch, hevent⟩ := hbreak
        cases hlisted : s.listed with
        | false =>
          refine ⟨_, handleAckReceived_unlisted hlisted hmatch, Or.inl ⟨rfl, Or.inl ?_⟩⟩
          apply hevent.resolve_right
          simp [popTo, hlisted]
        | true =>
          obtain ⟨running, hcancel⟩ := cancelTimer_eq (s.popTo rest)
          refine ⟨_, handleAckReceived_of (hpop.not_deleted (h.not_acked hlisted)) hlisted hmatch,
            Or.inl ?_⟩
          rw [hcancel]
          exact ⟨rfl, hevent.imp_right fun hd => ⟨rfl, hd.2⟩⟩

/-- From the first transmission on, orderly events finish an acknowledged PDU and respect the
retransmission limit. A life whose referring events were all handled keeps the promise only so. -/
theorem acknowledged_pdu_finished (p : TransportProfile) (key : String) (creationTs : ℕ)
    (inputs : List Input) :
    (Meets (step p) (Allowed p) (transmitPdu key creationTs) inputs →
      Finished p (transmitPdu key creationTs) inputs) ∧
    ((∀ s, run (step p) (transmitPdu key creationTs) inputs = .ok s →
        .transmitted ∉ s.queue ∧ .deleteRequest ∉ s.queue) →
      Finished p (transmitPdu key creationTs) inputs →
      Meets (step p) (Allowed p) (transmitPdu key creationTs) inputs) := by
  have hstart := sound_transmitPdu p key creationTs
  constructor
  · intro hok
    constructor
    · intro n
      obtain ⟨t, ht, hkept⟩ := hstart.run (hok.take n)
      exact ⟨t, ht, hkept.sound.toPromise⟩
    · intro m n t u hmn ht hacked hu
      obtain ⟨t', ht', hkept⟩ := hstart.run (hok.take m)
      cases ht.symm.trans ht'
      obtain ⟨k, rfl⟩ := Nat.exists_eq_add_of_le hmn
      rw [run_take_add, ht] at hu
      obtain ⟨u', hu', hsilent⟩ := hkept.sound.run ((hok.drop ht).take k)
      cases hu.symm.trans hu'
      exact (hsilent.silent hacked).2
  · intro hdrained hfinished
    by_contra hbad
    obtain ⟨n, i, s, hi, hmeets, hrun, hbreak⟩ := exists_first_break hbad
    obtain ⟨s', hrun', hkept⟩ := hstart.run hmeets
    cases hrun.symm.trans hrun'
    obtain ⟨t, hstep, hcase⟩ := hkept.sound.break_cases hbreak
    have hnext : run (step p) (transmitPdu key creationTs) (inputs.take (n + 1)) = .ok t := by
      rw [List.take_add_one, hi, run_append, hrun]
      simp [Except.bind, run, hstep]
    obtain ⟨t', ht', hpromise⟩ := hfinished.1 (n + 1)
    cases hnext.symm.trans ht'
    have hover := hcase.resolve_right (not_not.mpr hpromise)
    have hrest : ∀ k, ∃ u, run (step p) t ((inputs.drop (n + 1)).take k) = .ok u ∧
        u.Promise p := by
      intro k
      have hall := hfinished.1 (n + 1 + k)
      rw [run_take_add, hnext] at hall
      exact hall
    obtain ⟨u, hu, hlast⟩ := hover.run hrest
    have hend : run (step p) (transmitPdu key creationTs) inputs = .ok u := by
      rw [← List.take_append_drop (n + 1) inputs, run_append, hnext]
      exact hu
    obtain ⟨htransmitted, hdelete⟩ := hdrained u hend
    rcases hlast.2 with h | ⟨-, h⟩
    · exact htransmitted h
    · exact hdelete h

instance (p : TransportProfile) (now : ℕ) (others : List String) (s : UnackedPdu) :
    DecidablePred (Orderly p now others s)
  | .transmitted => inferInstanceAs (Decidable True)
  | .deleteRequest => inferInstanceAs (Decidable True)
  | .timerExpired => inferInstanceAs (Decidable (s.listed = true →
      s.transmissions ≤ p.retransmissionLimit ∨ p.expiration ≤ s.expirationRemaining p now))
  | .ackReceived a => inferInstanceAs (Decidable (s.MatchedBy others a →
      .transmitted ∉ s.queue ∧ (s.listed = true → .deleteRequest ∉ s.queue)))

instance (p : TransportProfile) (s : UnackedPdu) : DecidablePred (Allowed p s)
  | .fire _ => inferInstanceAs (Decidable True)
  | .ackArrives _ => inferInstanceAs (Decidable True)
  | .handle now others =>
    match h : s.queue with
    | [] => isTrue (by simp [Allowed, h])
    | e :: rest => decidable_of_iff (Orderly p now others (s.popTo rest) e) (by simp [Allowed, h])

/-- Eleven seconds of lifetime and one retransmission, which comes after five seconds. -/
def oneRetransmission : TransportProfile :=
  { profileId := ⟨1, by decide⟩, expiration := 11, retransmissionLimit := 1,
    aggregationSizeLimit := 1000, aggregationTimeLimit := 0, limit_pos := by decide }

def sentAt1000 : UnackedPdu := transmitPdu "ipn:9.129~1~1" 1000

/-- An acknowledgement under the other key. -/
def ackAlt : Ack := ⟨"ipn:9.128~1~1", some "ipn:9.129~1~1"⟩

/-- The PDU is listed, sent again, listed again, and then acknowledged. -/
def orderlyLife : List Input :=
  [.handle 1000 [], .fire 0, .handle 1005 [], .handle 1005 [], .ackArrives ackAlt,
    .handle 1006 []]

theorem acknowledged_pdu_finished_orderly :
    Finished oneRetransmission sentAt1000 orderlyLife :=
  (acknowledged_pdu_finished oneRetransmission "ipn:9.129~1~1" 1000 orderlyLife).1
    (by decide +kernel)

/-- The acknowledgement is handled before the transmitted event, after which the PDU is listed
and sent again; or it is handled before the second transmitted event, whose handler then reads a
deleted PDU; or it does not come, and the PDU is sent three times although one retransmission is
allowed. -/
theorem acknowledged_pdu_not_finished :
    (∃ s, run (step oneRetransmission) sentAt1000 [.ackArrives ackAlt, .handle 1000 [],
        .handle 1000 [], .fire 0, .handle 1005 []] = .ok s ∧
      s.acked = true ∧ s.listed = true ∧ s.transmissions = 2) ∧
    run (step oneRetransmission) sentAt1000 [.handle 1000 [], .fire 0, .handle 1005 [],
        .ackArrives ackAlt, .handle 1006 [], .handle 1006 []] = .error .usedAfterDelete ∧
    ∃ s, run (step oneRetransmission) sentAt1000 [.handle 1000 [], .fire 0, .handle 1005 [],
        .handle 1005 [], .fire 1, .handle 1010 []] = .ok s ∧
      s.transmissions = 3 := by
  decide +kernel

end UnackedPdu

end Dtnme.Dtpc
