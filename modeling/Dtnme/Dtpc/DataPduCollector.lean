import Dtnme.Library.OrdMap
import Dtnme.Library.Transition
import Dtnme.Library.Word

/-! # Ordered delivery at a DTPC collector

A collector passes sequenced PDUs on in the order of their numbers. A PDU that comes
early waits in a map, and a delivery timer runs for the smallest number waiting. When
the event of that timer is handled the gap before the PDU is given up.
-/

namespace Dtnme.Dtpc

open Dtnme.Library

/-- `DtpcDeliverPduTimer`, and whether it fired and its event is still to be handled. -/
structure DeliverPduTimer where
  seqCtr : ℕ
  posted : Bool
  deriving DecidableEq, Repr

/-- `DtpcDataPduCollector`. Timers are named by the order of their creation, and `delivered`
keeps what was handed to the topics. -/
structure DataPduCollector (α : Type*) where
  seqCtr : ℕ := 1
  pduMap : OrdMap ℕ α := .empty
  timer : Option ℕ := none
  timers : OrdMap ℕ DeliverPduTimer := .empty
  nextTimer : ℕ := 0
  delivered : List (ℕ × α) := []
  deriving DecidableEq

namespace DataPduCollector

variable {α : Type*}

/-- The numbers delivered so far. -/
def numbers (s : DataPduCollector α) : List ℕ := s.delivered.map Prod.fst

/-- `timer_->cancel()` and `timer_ = nullptr`. A timer that fired has its event posted, and
the event stays. -/
def cancelTimer (s : DataPduCollector α) : DataPduCollector α :=
  match s.timer with
  | none => s
  | some id =>
    { s with timer := none, timers := s.timers.filter fun j t => decide (j ≠ id) || t.posted }

/-- Start a delivery timer for a PDU. -/
def startTimer (s : DataPduCollector α) (seqCtr : ℕ) : DataPduCollector α :=
  { s with
    timer := some s.nextTimer
    timers := s.timers.insert s.nextTimer ⟨seqCtr, false⟩
    nextTimer := s.nextTimer + 1 }

/-- Take a PDU out of the map. -/
def dequeue (s : DataPduCollector α) (seqCtr : ℕ) : DataPduCollector α :=
  { s with pduMap := s.pduMap.erase seqCtr }

/-- `deliver_pdu` up to `check_for_deliverable_pdu`. -/
def handOver (s : DataPduCollector α) (seqCtr : ℕ) (pdu : α) : DataPduCollector α :=
  { s with delivered := s.delivered ++ [(seqCtr, pdu)], seqCtr := u64 (s.seqCtr + 1) }

/-- `check_for_deliverable_pdu` and the `deliver_pdu` it calls, which calls it again. -/
def checkForDeliverablePdu : ℕ → DataPduCollector α → DataPduCollector α
  | 0, s => s
  | fuel + 1, s =>
    match s.pduMap.first? with
    | none => s
    | some (seqCtr, pdu) =>
      if seqCtr = s.seqCtr then
        checkForDeliverablePdu fuel ((s.cancelTimer.dequeue seqCtr).handOver seqCtr pdu)
      else if s.timer = none then s.startTimer seqCtr
      else s

/-- `deliver_pdu`. -/
def deliverPdu (s : DataPduCollector α) (seqCtr : ℕ) (pdu : α) : DataPduCollector α :=
  checkForDeliverablePdu (s.pduMap.size + 1) (s.handOver seqCtr pdu)

/-- `pdu_map_.insert`, which keeps the PDU that is there. -/
def enqueue (s : DataPduCollector α) (seqCtr : ℕ) (pdu : α) : DataPduCollector α :=
  match s.pduMap.find? seqCtr with
  | some _ => s
  | none => { s with pduMap := s.pduMap.insert seqCtr pdu }

/-- `queue_pdu`. -/
def queuePdu (s : DataPduCollector α) (seqCtr : ℕ) (pdu : α) : DataPduCollector α :=
  if (s.enqueue seqCtr pdu).pduMap.firstKey? = some seqCtr then
    (s.enqueue seqCtr pdu).cancelTimer.startTimer seqCtr
  else s.enqueue seqCtr pdu

/-- `pdu_received`. -/
def pduReceived (s : DataPduCollector α) (seqCtr : ℕ) (pdu : α) : DataPduCollector α :=
  if seqCtr = 0 then s.deliverPdu seqCtr pdu
  else if seqCtr < s.seqCtr then s
  else if seqCtr = s.seqCtr then s.deliverPdu seqCtr pdu
  else s.queuePdu seqCtr pdu

/-- The state in which `timer_expired` delivers the first PDU of the map. -/
def giveUp (s : DataPduCollector α) (seqCtr : ℕ) : DataPduCollector α :=
  { s with timer := none, pduMap := s.pduMap.erase seqCtr, seqCtr := seqCtr }

/-- `timer_expired`. -/
def timerExpired (s : DataPduCollector α) (seqCtr : ℕ) : DataPduCollector α :=
  match s.pduMap.first? with
  | none => s
  | some (first, pdu) =>
    if first = seqCtr then (s.giveUp seqCtr).deliverPdu seqCtr pdu else s

/-- What happens to a collector: a PDU comes in, a timer that is not cancelled fires and posts
its event, or the posted event is handled. -/
inductive Event (α : Type*)
  | received (seqCtr : ℕ) (pdu : α)
  | fire (id : ℕ)
  | expired (id : ℕ)
  deriving DecidableEq

/-- A timer fires, and posts its event. -/
def postTimer (s : DataPduCollector α) (id : ℕ) : DataPduCollector α :=
  match s.timers.find? id with
  | none => s
  | some t => { s with timers := s.timers.insert id { t with posted := true } }

/-- The event of a timer leaves the queue. -/
def takeEvent (s : DataPduCollector α) (id : ℕ) : DataPduCollector α :=
  { s with timers := s.timers.erase id }

/-- Handle the event of a timer that fired. -/
def handleExpired (s : DataPduCollector α) (id : ℕ) : DataPduCollector α :=
  match s.timers.find? id with
  | none => s
  | some t => if t.posted then (s.takeEvent id).timerExpired t.seqCtr else s

def handle (s : DataPduCollector α) : Event α → DataPduCollector α
  | .received seqCtr pdu => s.pduReceived seqCtr pdu
  | .fire id => s.postTimer id
  | .expired id => s.handleExpired id

def step (s : DataPduCollector α) (e : Event α) : Except Empty (DataPduCollector α) :=
  .ok (s.handle e)

/-- The number of the PDU that the event of a timer delivers. -/
def dueNumber (s : DataPduCollector α) (id : ℕ) : Option ℕ :=
  (s.timers.find? id).bind fun t =>
    if t.posted ∧ s.pduMap.firstKey? = some t.seqCtr then some t.seqCtr else none

/-- The event gives a number up: a timer of a larger queued PDU fired before the number came. -/
def Passes (s : DataPduCollector α) (k : ℕ) : Event α → Prop
  | .expired id => ∃ m, s.dueNumber id = some m ∧ s.seqCtr ≤ k ∧ k < m
  | _ => False

/-- A number was given up in the course of the events. -/
def Skipped (events : List (Event α)) (k : ℕ) : Prop :=
  ∃ i s e, run step {} (events.take i) = .ok s ∧ events[i]? = some e ∧ Passes s k e

/-- What delivery promises of a state, where `J` are the numbers given up. -/
structure InOrder (J : ℕ → Prop) (s : DataPduCollector α) : Prop where
  increasing : s.numbers.Pairwise (· < ·)
  skipped : ∀ k, 1 ≤ k → k ∉ s.numbers → (∃ m ∈ s.numbers, k < m) → J k
  queued : ∀ n pdu, s.pduMap.find? n = some pdu → s.seqCtr < n
  pending : ∀ n, s.pduMap.firstKey? = some n →
    ∃ id t, s.timer = some id ∧ s.timers.find? id = some t ∧ t.seqCtr = n

/-- A PDU carries a 64-bit number, and 0 is for PDUs that are not sequenced. -/
def Event.Sequenced : Event α → Prop
  | .received seqCtr _ => 1 ≤ seqCtr ∧ seqCtr < 2 ^ 64
  | _ => True

/-- No timer event delivers a PDU once the counter has wrapped to 0. -/
def CounterRuns (s : DataPduCollector α) : Event α → Prop
  | .expired id => s.dueNumber id = none ∨ s.seqCtr ≠ 0
  | _ => True

/-- The counter read as a number that does not wrap, and what was delivered below it. -/
structure Progress (J : ℕ → Prop) (c : ℕ) (s : DataPduCollector α) : Prop where
  counter : s.seqCtr = u64 c
  pos : 1 ≤ c
  bounded : c ≤ 2 ^ 64
  increasing : s.numbers.Pairwise (· < ·)
  below : ∀ n ∈ s.numbers, n < c
  accounted : ∀ k, 1 ≤ k → k < c → k ∈ s.numbers ∨ J k
  last : 1 < c → c - 1 ∈ s.numbers

/-- If a timer is remembered, it runs for the first PDU of the map. -/
def Watched (s : DataPduCollector α) : Prop :=
  ∀ id, s.timer = some id → ∃ t, s.timers.find? id = some t ∧ s.pduMap.firstKey? = some t.seqCtr

/-- Between a delivery and the check that follows it. -/
structure Draining (c : ℕ) (s : DataPduCollector α) : Prop where
  queued : ∀ n pdu, s.pduMap.find? n = some pdu → c ≤ n ∧ n < 2 ^ 64
  watched : s.Watched

/-- Between two events. When the counter has wrapped any number is early. -/
structure Settled (c : ℕ) (s : DataPduCollector α) : Prop where
  queued : ∀ n pdu, s.pduMap.find? n = some pdu → 1 ≤ n ∧ n < 2 ^ 64 ∧ (c < 2 ^ 64 → c < n)
  watched : s.Watched
  waiting : ∀ n, s.pduMap.firstKey? = some n → s.timer ≠ none

variable {J : ℕ → Prop} {c n : ℕ} {s s' : DataPduCollector α}

@[simp] theorem cancelTimer_timer (s : DataPduCollector α) : s.cancelTimer.timer = none := by
  unfold cancelTimer
  split
  · assumption
  · rfl

@[simp] theorem cancelTimer_pduMap (s : DataPduCollector α) :
    s.cancelTimer.pduMap = s.pduMap := by
  unfold cancelTimer
  split <;> rfl

@[simp] theorem cancelTimer_seqCtr (s : DataPduCollector α) :
    s.cancelTimer.seqCtr = s.seqCtr := by
  unfold cancelTimer
  split <;> rfl

@[simp] theorem cancelTimer_delivered (s : DataPduCollector α) :
    s.cancelTimer.delivered = s.delivered := by
  unfold cancelTimer
  split <;> rfl

theorem Progress.congr (h : Progress J c s) (hcounter : s'.seqCtr = s.seqCtr)
    (hdelivered : s'.delivered = s.delivered) : Progress J c s' := by
  have hnumbers : s'.numbers = s.numbers := by simp [numbers, hdelivered]
  constructor
  · rw [hcounter, h.counter]
  · exact h.pos
  · exact h.bounded
  · rw [hnumbers]
    exact h.increasing
  · rw [hnumbers]
    exact h.below
  · rw [hnumbers]
    exact h.accounted
  · rw [hnumbers]
    exact h.last

theorem Progress.mono {J' : ℕ → Prop} (h : Progress J c s) (hJ : ∀ k, J k → J' k) :
    Progress J' c s :=
  { h with accounted := fun k h1 hk => (h.accounted k h1 hk).imp_right (hJ k) }

/-- Delivery of a number that is not below the counter, when the numbers between are given up. -/
theorem Progress.advance {m : ℕ} (pdu : α) (h : Progress J c s) (hm : m < 2 ^ 64) (hcm : c ≤ m)
    (hgiven : ∀ k, c ≤ k → k < m → J k) (hdelivered : s'.delivered = s.delivered ++ [(m, pdu)])
    (hcounter : s'.seqCtr = u64 (m + 1)) : Progress J (m + 1) s' := by
  have hnumbers : s'.numbers = s.numbers ++ [m] := by simp [numbers, hdelivered]
  constructor
  · exact hcounter
  · omega
  · omega
  · rw [hnumbers, List.pairwise_append]
    refine ⟨h.increasing, List.pairwise_singleton _ _, ?_⟩
    intro a ha b hb
    rw [List.mem_singleton.mp hb]
    exact lt_of_lt_of_le (h.below a ha) hcm
  · intro n hn
    rw [hnumbers, List.mem_append] at hn
    rcases hn with hn | hn
    · have := h.below n hn
      omega
    · rw [List.mem_singleton.mp hn]
      exact Nat.lt_succ_self m
  · intro k h1 hk
    rw [hnumbers, List.mem_append]
    by_cases hkc : k < c
    · exact (h.accounted k h1 hkc).imp_left Or.inl
    · by_cases hkm : k = m
      · exact Or.inl (Or.inr (List.mem_singleton.mpr hkm))
      · exact Or.inr (hgiven k (not_lt.mp hkc) (by omega))
  · intro _
    simp [hnumbers]

theorem Progress.counter_of_lt (h : Progress J c s) (hc : c < 2 ^ 64) : s.seqCtr = c := by
  rw [h.counter, u64_of_lt hc]

theorem Progress.counter_eq_zero_iff (h : Progress J c s) : s.seqCtr = 0 ↔ c = 2 ^ 64 := by
  have hpos := h.pos
  rcases lt_or_eq_of_le h.bounded with hc | hc
  · rw [h.counter_of_lt hc]
    omega
  · rw [h.counter, hc]
    decide +kernel

theorem watched_startTimer (h : s.pduMap.firstKey? = some n) : (s.startTimer n).Watched := by
  intro id hid
  cases hid
  exact ⟨⟨n, false⟩, by simp [startTimer], h⟩

theorem watched_of_timer_eq_none (h : s.timer = none) : s.Watched := by
  intro id hid
  rw [h] at hid
  cases hid

/-- After a delivery the check hands over every number that has become due, and leaves a timer
for the first number still missing its predecessors. -/
theorem checkForDeliverablePdu_settled (fuel : ℕ) (hp : Progress J c s) (hd : Draining c s)
    (hfuel : s.pduMap.size < fuel) :
    ∃ c', Progress J c' (checkForDeliverablePdu fuel s) ∧
      Settled c' (checkForDeliverablePdu fuel s) := by
  induction fuel generalizing c s with
  | zero => omega
  | succ fuel ih =>
    simp only [checkForDeliverablePdu]
    cases hfirst : s.pduMap.first? with
    | none =>
      have hempty := OrdMap.first?_eq_none hfirst
      refine ⟨c, hp, ?_, hd.watched, ?_⟩
      · intro n pdu hn
        rw [hempty] at hn
        cases hn
      · intro n hn
        simp [OrdMap.firstKey?, hfirst] at hn
    | some e =>
      obtain ⟨n, pdu⟩ := e
      obtain ⟨hn, hleast⟩ := OrdMap.first?_eq_some hfirst
      have hkey := OrdMap.firstKey?_of_first? hfirst
      obtain ⟨hcn, hlt⟩ := hd.queued n pdu hn
      have hc : c < 2 ^ 64 := lt_of_le_of_lt hcn hlt
      have hctr := hp.counter_of_lt hc
      dsimp only
      split_ifs with heq hnone
      · -- the first number is the expected one
        have hnc : n = c := heq.trans hctr
        have hsize := OrdMap.size_erase hn
        apply ih (c := n + 1)
        · apply hp.advance pdu hlt hcn (by omega)
          · simp [handOver, dequeue]
          · simp [handOver, dequeue, hctr, hnc]
        · constructor
          · intro m a hm
            simp only [handOver, dequeue, cancelTimer_pduMap, OrdMap.find?_erase] at hm
            split_ifs at hm with hmn
            have := hd.queued m a hm
            omega
          · exact watched_of_timer_eq_none (cancelTimer_timer s)
        · simp only [handOver, dequeue, cancelTimer_pduMap]
          omega
      · -- wait for the numbers before it
        refine ⟨c, hp.congr rfl rfl, ?_, watched_startTimer hkey, ?_⟩
        · intro m a hm
          have := hleast m a hm
          have := (hd.queued m a hm).2
          have := hp.pos
          omega
        · intro m _
          simp [startTimer]
      · refine ⟨c, hp, ?_, hd.watched, fun _ _ => hnone⟩
        intro m a hm
        have := hleast m a hm
        have := (hd.queued m a hm).2
        have := hp.pos
        omega

theorem deliverPdu_settled {pdu : α} (hp : Progress J c s) (hn : n < 2 ^ 64) (hcn : c ≤ n)
    (hgiven : ∀ k, c ≤ k → k < n → J k) (hdelivered : s'.delivered = s.delivered)
    (hcounter : s'.seqCtr = n)
    (hqueued : ∀ m a, s'.pduMap.find? m = some a → n < m ∧ m < 2 ^ 64) (hwatched : s'.Watched) :
    ∃ c', Progress J c' (s'.deliverPdu n pdu) ∧ Settled c' (s'.deliverPdu n pdu) := by
  apply checkForDeliverablePdu_settled (c := n + 1)
  · apply hp.advance pdu hn hcn hgiven
    · simp [handOver, hdelivered]
    · simp [handOver, hcounter]
  · exact ⟨hqueued, hwatched⟩
  · exact Nat.lt_succ_self _

theorem find?_enqueue {pdu a : α} {m : ℕ} (h : (s.enqueue n pdu).pduMap.find? m = some a) :
    m = n ∨ s.pduMap.find? m = some a := by
  unfold enqueue at h
  split at h
  · exact Or.inr h
  · rw [OrdMap.find?_insert] at h
    split_ifs at h with hmn
    · exact Or.inl hmn
    · exact Or.inr h

/-- A PDU that is not queued first leaves the first PDU where it is. -/
theorem firstKey?_enqueue {pdu : α} (h : (s.enqueue n pdu).pduMap.firstKey? ≠ some n) :
    (s.enqueue n pdu).pduMap.firstKey? = s.pduMap.firstKey? := by
  unfold enqueue at h ⊢
  split
  · rfl
  · rename_i hnone
    simp only [hnone] at h
    exact (OrdMap.firstKey?_insert s.pduMap n pdu).resolve_left h

theorem enqueue_same (s : DataPduCollector α) (n : ℕ) (pdu : α) :
    (s.enqueue n pdu).timer = s.timer ∧ (s.enqueue n pdu).timers = s.timers ∧
      (s.enqueue n pdu).seqCtr = s.seqCtr ∧ (s.enqueue n pdu).delivered = s.delivered := by
  unfold enqueue
  split <;> exact ⟨rfl, rfl, rfl, rfl⟩

theorem queuePdu_settled {pdu : α} (hp : Progress J c s) (hs : Settled c s) (h1 : 1 ≤ n)
    (hn : n < 2 ^ 64) (hcn : c < 2 ^ 64 → c < n) :
    Progress J c (s.queuePdu n pdu) ∧ Settled c (s.queuePdu n pdu) := by
  obtain ⟨htimer, htimers, hcounter, hdelivered⟩ := enqueue_same s n pdu
  have hqueued : ∀ m a, (s.enqueue n pdu).pduMap.find? m = some a →
      1 ≤ m ∧ m < 2 ^ 64 ∧ (c < 2 ^ 64 → c < m) := by
    intro m a hm
    rcases find?_enqueue hm with rfl | hm
    · exact ⟨h1, hn, hcn⟩
    · exact hs.queued m a hm
  unfold queuePdu
  split_ifs with hfirst
  · constructor
    · apply hp.congr
      · simp [startTimer, hcounter]
      · simp [startTimer, hdelivered]
    · constructor
      · intro m a hm
        simp only [startTimer, cancelTimer_pduMap] at hm
        exact hqueued m a hm
      · apply watched_startTimer
        simpa using hfirst
      · intro m _
        simp [startTimer]
  · have hkeep := firstKey?_enqueue hfirst
    refine ⟨hp.congr hcounter hdelivered, hqueued, ?_, ?_⟩
    · intro id hid
      rw [htimer] at hid
      rw [htimers, hkeep]
      exact hs.watched id hid
    · intro m hm
      rw [hkeep] at hm
      rw [htimer]
      exact hs.waiting m hm

theorem pduReceived_settled {pdu : α} (hp : Progress J c s) (hs : Settled c s) (h1 : 1 ≤ n)
    (hn : n < 2 ^ 64) :
    ∃ c', Progress J c' (s.pduReceived n pdu) ∧ Settled c' (s.pduReceived n pdu) := by
  unfold pduReceived
  split_ifs with h0 hlate hexpected
  · omega
  · exact ⟨c, hp, hs⟩
  · -- the counter has not wrapped, since it equals the number
    have hc : c < 2 ^ 64 := by
      have := hp.counter_eq_zero_iff
      have := hp.bounded
      omega
    have hctr := hp.counter_of_lt hc
    apply deliverPdu_settled hp hn (by omega) (by omega) rfl hexpected.symm ?_ hs.watched
    intro m a hm
    have := hs.queued m a hm
    omega
  · refine ⟨c, queuePdu_settled hp hs h1 hn ?_⟩
    intro hc
    have := hp.counter_of_lt hc
    omega

theorem postTimer_settled {id : ℕ} (hp : Progress J c s) (hs : Settled c s) :
    Progress J c (s.postTimer id) ∧ Settled c (s.postTimer id) := by
  unfold postTimer
  split
  · exact ⟨hp, hs⟩
  · rename_i t ht
    refine ⟨hp.congr rfl rfl, hs.queued, ?_, hs.waiting⟩
    intro j hj
    obtain ⟨u, hu, hfirst⟩ := hs.watched j hj
    simp only [OrdMap.find?_insert]
    split_ifs with hji
    · subst hji
      cases ht.symm.trans hu
      exact ⟨_, rfl, hfirst⟩
    · exact ⟨u, hu, hfirst⟩

/-- The event of a timer either delivers the first PDU, or it is for another number and only
leaves the queue. -/
theorem handleExpired_cases (s : DataPduCollector α) (id : ℕ) :
    (s.dueNumber id = none ∧ (s.handleExpired id = s ∨ s.handleExpired id = s.takeEvent id ∧
      ∃ t, s.timers.find? id = some t ∧ s.pduMap.firstKey? ≠ some t.seqCtr)) ∨
    ∃ m pdu, s.dueNumber id = some m ∧ s.pduMap.first? = some (m, pdu) ∧
      s.handleExpired id = ((s.takeEvent id).giveUp m).deliverPdu m pdu := by
  unfold handleExpired dueNumber OrdMap.firstKey?
  cases ht : s.timers.find? id with
  | none => exact Or.inl ⟨rfl, Or.inl rfl⟩
  | some t =>
    cases hposted : t.posted with
    | false => exact Or.inl ⟨by simp [hposted], Or.inl (by simp [hposted])⟩
    | true =>
      have hmap : (s.takeEvent id).pduMap = s.pduMap := rfl
      simp only [hposted, if_true, timerExpired, hmap]
      cases hfirst : s.pduMap.first? with
      | none => exact Or.inl ⟨by simp, Or.inr ⟨rfl, t, rfl, by simp⟩⟩
      | some e =>
        obtain ⟨first, pdu⟩ := e
        dsimp only
        split_ifs with heq
        · subst heq
          exact Or.inr ⟨t.seqCtr, pdu, by simp [hposted], rfl, rfl⟩
        · exact Or.inl ⟨by simp [heq], Or.inr ⟨rfl, t, rfl, by simp [heq]⟩⟩

theorem handleExpired_settled {id : ℕ} (hp : Progress J c s) (hs : Settled c s)
    (hruns : CounterRuns s (.expired id)) (hgiven : ∀ k, Passes s k (.expired id) → J k) :
    ∃ c', Progress J c' (s.handleExpired id) ∧ Settled c' (s.handleExpired id) := by
  rcases handleExpired_cases s id with
    ⟨-, hsame | ⟨htaken, t, ht, hfirst⟩⟩ | ⟨m, pdu, hdue, hfirst, hnext⟩
  · rw [hsame]
    exact ⟨c, hp, hs⟩
  · rw [htaken]
    refine ⟨c, hp.congr rfl rfl, hs.queued, ?_, hs.waiting⟩
    -- the remembered timer is for the first PDU, so its event is another one
    intro j hj
    obtain ⟨u, hu, hfirstu⟩ := hs.watched j hj
    refine ⟨u, ?_, hfirstu⟩
    simp only [takeEvent, OrdMap.find?_erase]
    split_ifs with hji
    · subst hji
      cases ht.symm.trans hu
      exact absurd hfirstu hfirst
    · exact hu
  · rw [hnext]
    obtain ⟨hm, hleast⟩ := OrdMap.first?_eq_some hfirst
    obtain ⟨-, hlt, hcm⟩ := hs.queued m pdu hm
    have hnonzero : s.seqCtr ≠ 0 := hruns.resolve_left (by simp [hdue])
    have hc : c < 2 ^ 64 := by
      have := hp.counter_eq_zero_iff
      have := hp.bounded
      omega
    have hctr := hp.counter_of_lt hc
    have hwatched : ((s.takeEvent id).giveUp m).Watched := watched_of_timer_eq_none rfl
    have hdelivered : ((s.takeEvent id).giveUp m).delivered = s.delivered := rfl
    apply deliverPdu_settled hp hlt (hcm hc).le ?_ hdelivered rfl ?_ hwatched
    · intro k hck hkm
      exact hgiven k ⟨m, hdue, by omega, hkm⟩
    · intro j a hj
      simp only [giveUp, takeEvent, OrdMap.find?_erase] at hj
      split_ifs at hj with hjm
      have := hleast j a hj
      have := hs.queued j a hj
      omega

theorem handle_settled {e : Event α} (hp : Progress J c s) (hs : Settled c s)
    (hseq : e.Sequenced) (hruns : CounterRuns s e) (hgiven : ∀ k, Passes s k e → J k) :
    ∃ c', Progress J c' (s.handle e) ∧ Settled c' (s.handle e) := by
  cases e with
  | received seqCtr pdu => exact pduReceived_settled hp hs hseq.1 hseq.2
  | fire id => exact ⟨c, postTimer_settled hp hs⟩
  | expired id => exact handleExpired_settled hp hs hruns hgiven

theorem inOrder_of_settled (hp : Progress J c s) (hs : Settled c s) : InOrder J s := by
  constructor
  · exact hp.increasing
  · rintro k h1 hk ⟨m, hm, hkm⟩
    exact (hp.accounted k h1 (hkm.trans (hp.below m hm))).resolve_left hk
  · intro n pdu hn
    obtain ⟨h1, hlt, hcn⟩ := hs.queued n pdu hn
    rcases lt_or_eq_of_le hp.bounded with hc | hc
    · rw [hp.counter_of_lt hc]
      exact hcn hc
    · rw [hp.counter_eq_zero_iff.mpr hc]
      exact h1
  · intro n hn
    obtain ⟨id, hid⟩ := Option.ne_none_iff_exists'.mp (hs.waiting n hn)
    obtain ⟨t, ht, hfirst⟩ := hs.watched id hid
    exact ⟨id, t, hid, ht, Option.some.inj (hfirst.symm.trans hn)⟩

theorem progress_initial : Progress J 1 ({} : DataPduCollector α) := by
  constructor
  · exact (u64_of_lt (by norm_num)).symm
  · exact le_rfl
  · norm_num
  · exact List.Pairwise.nil
  · intro n hn
    cases hn
  · intro k h1 hk
    omega
  · intro h
    exact absurd h (lt_irrefl 1)

theorem settled_initial : Settled 1 ({} : DataPduCollector α) := by
  constructor
  · intro n pdu hn
    cases hn
  · exact watched_of_timer_eq_none rfl
  · intro n hn
    cases hn

variable {events : List (Event α)}

theorem Skipped.append {k : ℕ} (h : Skipped events k) (e : Event α) :
    Skipped (events ++ [e]) k := by
  obtain ⟨i, s, e', hrun, hi, hpass⟩ := h
  have hlt := (List.getElem?_eq_some_iff.mp hi).1
  refine ⟨i, s, e', ?_, ?_, hpass⟩
  · rw [List.take_append_of_le_length hlt.le]
    exact hrun
  · rw [List.getElem?_append_left hlt]
    exact hi

theorem skipped_last {k : ℕ} {e : Event α} (hrun : run step {} events = .ok s)
    (h : Passes s k e) : Skipped (events ++ [e]) k :=
  ⟨events.length, s, e, by simpa using hrun, by simp, h⟩

/-- Events after which the counter keeps running leave a settled collector. -/
theorem run_settled (hseq : ∀ e ∈ events, e.Sequenced) (hruns : Meets step CounterRuns {} events) :
    ∃ s c, run step {} events = .ok s ∧ Progress (Skipped events) c s ∧ Settled c s := by
  have hstep : ∀ (s : DataPduCollector α) past e,
      (run step {} past = .ok s ∧ ∃ c, Progress (Skipped past) c s ∧ Settled c s) →
      (CounterRuns s e ∧ e.Sequenced) →
      ∃ s', step s e = .ok s' ∧ run step {} (past ++ [e]) = .ok s' ∧
        ∃ c, Progress (Skipped (past ++ [e])) c s' ∧ Settled c s' := by
    rintro s past e ⟨hrun, c, hp, hs⟩ ⟨hruns, hseq⟩
    refine ⟨s.handle e, rfl, ?_, ?_⟩
    · rw [run_append, hrun]
      rfl
    · exact handle_settled (hp.mono fun k hk => hk.append e) hs hseq hruns
        fun k hk => skipped_last hrun hk
  obtain ⟨s, hrun, -, c, hp, hs⟩ := run_invariant _ hstep
    ⟨rfl, 1, progress_initial, settled_initial⟩ (hruns.and_forall hseq)
  exact ⟨s, c, hrun, hp, hs⟩

theorem checkForDeliverablePdu_delivered (fuel : ℕ) (s : DataPduCollector α) :
    ∃ l, (checkForDeliverablePdu fuel s).delivered = s.delivered ++ l := by
  induction fuel generalizing s with
  | zero => exact ⟨[], (List.append_nil _).symm⟩
  | succ fuel ih =>
    simp only [checkForDeliverablePdu]
    split
    · exact ⟨[], (List.append_nil _).symm⟩
    · rename_i n pdu _
      split_ifs
      · obtain ⟨l, hl⟩ := ih ((s.cancelTimer.dequeue n).handOver n pdu)
        refine ⟨(n, pdu) :: l, ?_⟩
        rw [hl]
        simp [handOver, dequeue]
      · exact ⟨[], (List.append_nil _).symm⟩
      · exact ⟨[], (List.append_nil _).symm⟩

theorem deliverPdu_numbers (s : DataPduCollector α) (n : ℕ) (pdu : α) :
    ∃ l, (s.deliverPdu n pdu).numbers = s.numbers ++ n :: l := by
  obtain ⟨l, hl⟩ := checkForDeliverablePdu_delivered (s.pduMap.size + 1) (s.handOver n pdu)
  refine ⟨l.map Prod.fst, ?_⟩
  rw [numbers, deliverPdu, hl]
  simp [handOver, numbers]

/-- A wrapped counter lets the event of a timer deliver a number after the largest one. -/
theorem not_increasing_of_wrapped {e : Event α} (hp : Progress J c s) (hs : Settled c s)
    (hbreak : ¬ CounterRuns s e) : ¬ (s.handle e).numbers.Pairwise (· < ·) := by
  cases e with
  | received => exact absurd trivial hbreak
  | fire => exact absurd trivial hbreak
  | expired id =>
    simp only [CounterRuns, not_or, not_not] at hbreak
    have hc := hp.counter_eq_zero_iff.mp hbreak.2
    rcases handleExpired_cases s id with ⟨hnone, -⟩ | ⟨m, pdu, -, hfirst, hnext⟩
    · exact absurd hnone hbreak.1
    · obtain ⟨l, hl⟩ := deliverPdu_numbers ((s.takeEvent id).giveUp m) m pdu
      have hlast : 2 ^ 64 - 1 ∈ s.numbers := hc ▸ hp.last (by rw [hc]; norm_num)
      have hm := (hs.queued m pdu (OrdMap.first?_eq_some hfirst).1).2.1
      have hnumbers : (s.handle (.expired id)).numbers = s.numbers ++ m :: l :=
        (congrArg numbers hnext).trans hl
      intro hinc
      rw [hnumbers, List.pairwise_append] at hinc
      have := hinc.2.2 _ hlast m List.mem_cons_self
      omega

/-- For every sequence of events the promise holds after each of them exactly if no timer event
delivers a PDU once the counter has wrapped, which it does after number `2 ^ 64 - 1`. -/
theorem delivery_in_order {events : List (Event α)} (hseq : ∀ e ∈ events, e.Sequenced) :
    (∀ n, ∃ s, run step {} (events.take n) = .ok s ∧ InOrder (Skipped (events.take n)) s) ↔
      Meets step CounterRuns {} events := by
  constructor
  · intro hall
    by_contra hbreak
    obtain ⟨n, e, s, he, hmeets, hrun, hstop⟩ := exists_first_break hbreak
    obtain ⟨s₁, c, hrun₁, hp, hs⟩ :=
      run_settled (fun e he => hseq e (List.mem_of_mem_take he)) hmeets
    cases hrun.symm.trans hrun₁
    obtain ⟨s', hrun', hinOrder⟩ := hall (n + 1)
    have hnext : run step {} (events.take (n + 1)) = .ok (s.handle e) := by
      rw [List.take_add_one, he, run_append, hrun]
      rfl
    cases hrun'.symm.trans hnext
    exact not_increasing_of_wrapped hp hs hstop hinOrder.increasing
  · intro hmeets n
    obtain ⟨s, c, hrun, hp, hs⟩ :=
      run_settled (fun e he => hseq e (List.mem_of_mem_take he)) (hmeets.take n)
    exact ⟨s, hrun, inOrder_of_settled hp hs⟩

instance (s : DataPduCollector α) : DecidablePred (CounterRuns s)
  | .received .. => inferInstanceAs (Decidable True)
  | .fire _ => inferInstanceAs (Decidable True)
  | .expired id => inferInstanceAs (Decidable (s.dueNumber id = none ∨ s.seqCtr ≠ 0))

instance : DecidablePred (@Event.Sequenced α)
  | .received seqCtr _ => inferInstanceAs (Decidable (1 ≤ seqCtr ∧ seqCtr < 2 ^ 64))
  | .fire _ => inferInstanceAs (Decidable True)
  | .expired _ => inferInstanceAs (Decidable True)

/-- Numbers 4 and 3 come before 1, and 2 never comes. -/
def gapEvents : List (Event Unit) :=
  [.received 4 (), .received 3 (), .fire 0, .fire 1, .received 1 (), .received 4 (), .expired 1,
    .received 2 ()]

example : ∃ s, run step {} gapEvents = .ok s ∧ s.numbers = [1, 3, 4] := by decide +kernel

theorem delivery_in_order_gap :
    ∃ s, run step {} (gapEvents.take 8) = .ok s ∧ InOrder (Skipped (gapEvents.take 8)) s :=
  (delivery_in_order (by decide +kernel)).mpr (by decide +kernel) 8

/-- The counter wraps after the largest number, and a copy of it is delivered again. -/
def wrapEvents : List (Event Unit) :=
  [.received (2 ^ 64 - 1) (), .fire 0, .expired 0, .received (2 ^ 64 - 1) (), .fire 1, .expired 1]

theorem delivered_after_wrap :
    (∀ e ∈ wrapEvents, e.Sequenced) ∧
      ∃ s, run step {} wrapEvents = .ok s ∧ ¬ s.numbers.Pairwise (· < ·) := by
  decide +kernel

end DataPduCollector

end Dtnme.Dtpc
