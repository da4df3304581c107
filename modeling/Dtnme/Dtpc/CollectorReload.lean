import Dtnme.Dtpc.DataPduCollector

/-! # The counter of a collector across restarts

A collector is written to the data store after every event, and comes back with its counter and its
queue. PDUs that expired meanwhile are dropped, and the counter moves behind them; the first one
that has not expired stays in the queue even if it is the one expected.
-/

namespace Dtnme.Dtpc

open Dtnme.Library

namespace DataPduCollector

variable {α : Type*} (expirationTs : α → ℤ)

/-- The loop of `ds_reload_post_processing`. -/
def discardExpired (currTime : ℤ) : ℕ → DataPduCollector α → DataPduCollector α
  | 0, s => s
  | fuel + 1, s =>
    match s.pduMap.first? with
    | none => s
    | some (seqCtr, pdu) =>
      if expirationTs pdu < currTime then
        discardExpired currTime fuel
          { s with seqCtr := u64 (seqCtr + 1), pduMap := s.pduMap.erase seqCtr }
      else s.startTimer seqCtr

/-- A restart: timers and their events are gone. -/
def reload (currTime : ℤ) (s : DataPduCollector α) : DataPduCollector α :=
  discardExpired expirationTs currTime (s.pduMap.size + 1) { s with timer := none, timers := .empty }

/-- An event, or a restart at some time. -/
inductive StoredEvent (α : Type*)
  | live (e : Event α)
  | restart (currTime : ℤ)
  deriving DecidableEq

def storedStep (s : DataPduCollector α) : StoredEvent α → Except Empty (DataPduCollector α)
  | .live e => .ok (s.handle e)
  | .restart currTime => .ok (s.reload expirationTs currTime)

/-- A PDU carries a 64-bit number. -/
def StoredEvent.Word : StoredEvent α → Prop
  | .live (.received seqCtr _) => seqCtr < 2 ^ 64
  | _ => True

/-- All numbers behind this one are queued, so that delivering it goes on to the last one. -/
def ToLast (s : DataPduCollector α) (n : ℕ) : Prop :=
  ∀ k, n < k → k < 2 ^ 64 → s.pduMap.find? k ≠ none

/-- The counter is left to run: no PDU is unsequenced, no number up to the last one is delivered, and
none that a timer delivers or a restart drops is one that the counter has passed. -/
def Runs (s : DataPduCollector α) : StoredEvent α → Prop
  | .live (.received seqCtr _) => seqCtr ≠ 0 ∧ (seqCtr = s.seqCtr → ¬ s.ToLast seqCtr)
  | .live (.expired id) => ∀ m, s.dueNumber id = some m → s.seqCtr ≤ m ∧ ¬ s.ToLast m
  | .live (.fire _) => True
  | .restart currTime =>
    (∀ m pdu, s.pduMap.first? = some (m, pdu) → expirationTs pdu < currTime → s.seqCtr ≤ m + 1) ∧
    ((∃ pdu, s.pduMap.find? (2 ^ 64 - 1) = some pdu) →
      ∃ m pdu, s.pduMap.find? m = some pdu ∧ currTime ≤ expirationTs pdu)

/-- What is asked of one step. -/
structure StepRight (s : DataPduCollector α) (e : StoredEvent α) (s' : DataPduCollector α) : Prop where
  counter : s.seqCtr ≤ s'.seqCtr
  unsequenced : ∀ pdu, e = .live (.received 0 pdu) → s'.seqCtr = s.seqCtr ∧ s'.pduMap = s.pduMap
  once : (s'.numbers.filter (· ≠ 0)).Nodup

/-- The counter never runs wrong in a run. -/
def NeverWrong (events : List (StoredEvent α)) : Prop :=
  ∀ (i : ℕ) (s : DataPduCollector α) (e : StoredEvent α) (s' : DataPduCollector α),
    run (storedStep expirationTs) {} (events.take i) = .ok s → events[i]? = some e →
    storedStep expirationTs s e = .ok s' → StepRight s e s'

/-- What was delivered lies below the counter. -/
structure Behind (s : DataPduCollector α) : Prop where
  pos : 1 ≤ s.seqCtr
  word : s.seqCtr < 2 ^ 64
  nodup : s.numbers.Nodup
  below : ∀ n ∈ s.numbers, n < s.seqCtr
  queued : ∀ n pdu, s.pduMap.find? n = some pdu → n < 2 ^ 64

variable {expirationTs} {s s' : DataPduCollector α} {n : ℕ}

theorem Behind.congr (h : Behind s) (hctr : s'.seqCtr = s.seqCtr) (hmap : s'.pduMap = s.pduMap)
    (hdelivered : s'.delivered = s.delivered) : Behind s' := by
  have hnumbers : s'.numbers = s.numbers := by simp [numbers, hdelivered]
  constructor
  · rw [hctr]
    exact h.pos
  · rw [hctr]
    exact h.word
  · rw [hnumbers]
    exact h.nodup
  · rw [hnumbers, hctr]
    exact h.below
  · rw [hmap]
    exact h.queued

/-- A number the counter has not passed is handed over and passed, unless it is the last one. -/
theorem Behind.handOver (h : Behind s) (hctr : s.seqCtr = n) (hn : n + 1 < 2 ^ 64) (pdu : α) :
    Behind (s.handOver n pdu) ∧ (s.handOver n pdu).seqCtr = n + 1 := by
  have hnext : (s.handOver n pdu).seqCtr = n + 1 := by
    rw [DataPduCollector.handOver, hctr, u64_of_lt hn]
  have hnumbers : (s.handOver n pdu).numbers = s.numbers ++ [n] := by
    simp [numbers, DataPduCollector.handOver]
  refine ⟨⟨by rw [hnext]; omega, by rw [hnext]; exact hn, ?_, ?_, h.queued⟩, hnext⟩
  · rw [hnumbers, List.nodup_append]
    refine ⟨h.nodup, List.nodup_singleton n, ?_⟩
    rintro a ha b hb rfl
    have hlt := h.below a ha
    rw [List.mem_singleton] at hb
    omega
  · intro m hm
    rw [hnumbers, List.mem_append, List.mem_singleton] at hm
    rw [hnext]
    rcases hm with hm | rfl
    · have hlt := h.below m hm
      omega
    · omega

/-- The check after a delivery, when a number the counter has not passed is missing. -/
theorem Behind.check (fuel : ℕ) {k : ℕ} (h : Behind s) (hk : s.seqCtr ≤ k) (hlt : k < 2 ^ 64)
    (hgap : s.pduMap.find? k = none) :
    Behind (checkForDeliverablePdu fuel s) ∧ s.seqCtr ≤ (checkForDeliverablePdu fuel s).seqCtr := by
  induction fuel generalizing s with
  | zero => exact ⟨h, le_rfl⟩
  | succ fuel ih =>
    simp only [checkForDeliverablePdu]
    cases hfirst : s.pduMap.first? with
    | none => exact ⟨h, le_rfl⟩
    | some p =>
      obtain ⟨m, pdu⟩ := p
      obtain ⟨hm, -⟩ := OrdMap.first?_eq_some hfirst
      dsimp only
      split_ifs with heq hnone
      · have hne : m ≠ k := by
          rintro rfl
          rw [hgap] at hm
          cases hm
        have hbehind : Behind (s.cancelTimer.dequeue m) := by
          refine ⟨?_, ?_, ?_, ?_, ?_⟩
          · simpa [dequeue] using h.pos
          · simpa [dequeue] using h.word
          · simpa [numbers, dequeue] using h.nodup
          · simpa [numbers, dequeue] using h.below
          · intro j a hj
            simp only [dequeue, cancelTimer_pduMap, OrdMap.find?_erase] at hj
            split_ifs at hj
            exact h.queued j a hj
        have hctr : (s.cancelTimer.dequeue m).seqCtr = m := by simp [dequeue, heq]
        obtain ⟨hnext, hseq⟩ := hbehind.handOver hctr (by omega) pdu
        obtain ⟨hdone, hle⟩ := ih hnext (by omega) (by
          simp only [DataPduCollector.handOver, dequeue, cancelTimer_pduMap, OrdMap.find?_erase, hgap,
            ite_self])
        exact ⟨hdone, by omega⟩
      · exact ⟨h.congr rfl rfl rfl, le_rfl⟩
      · exact ⟨h, le_rfl⟩

theorem Behind.deliverPdu (h : Behind s) (hctr : s.seqCtr = n) (hlast : ¬ s.ToLast n) (pdu : α) :
    Behind (s.deliverPdu n pdu) ∧ n + 1 ≤ (s.deliverPdu n pdu).seqCtr := by
  unfold ToLast at hlast
  push Not at hlast
  obtain ⟨k, hk, hlt, hgap⟩ := hlast
  obtain ⟨hnext, hseq⟩ := h.handOver hctr (by omega) pdu
  obtain ⟨hdone, hle⟩ := hnext.check (s.pduMap.size + 1) (by omega) hlt hgap
  exact ⟨hdone, hseq ▸ hle⟩

theorem Behind.pduReceived (h : Behind s) (hn : n < 2 ^ 64) (hpos : n ≠ 0)
    (hlast : n = s.seqCtr → ¬ s.ToLast n) (pdu : α) :
    Behind (s.pduReceived n pdu) ∧ s.seqCtr ≤ (s.pduReceived n pdu).seqCtr := by
  unfold DataPduCollector.pduReceived
  rw [if_neg hpos]
  split_ifs with hlate hdue
  · exact ⟨h, le_rfl⟩
  · obtain ⟨hdone, hle⟩ := h.deliverPdu hdue.symm (hlast hdue) pdu
    exact ⟨hdone, by omega⟩
  · have henqueue : Behind (s.enqueue n pdu) ∧ (s.enqueue n pdu).seqCtr = s.seqCtr := by
      unfold enqueue
      cases hfind : s.pduMap.find? n with
      | some _ => exact ⟨h, rfl⟩
      | none =>
        refine ⟨⟨h.pos, h.word, h.nodup, h.below, ?_⟩, rfl⟩
        intro m a hm
        simp only [OrdMap.find?_insert] at hm
        split_ifs at hm with heq
        · exact heq ▸ hn
        · exact h.queued m a hm
    unfold queuePdu
    split_ifs
    · refine ⟨henqueue.1.congr ?_ ?_ ?_, ?_⟩ <;> simp [startTimer, henqueue.2]
    · exact ⟨henqueue.1, henqueue.2.ge⟩

/-- A timer delivers a number the counter has not passed. -/
theorem Behind.handleExpired (h : Behind s) {id : ℕ}
    (hruns : ∀ m, s.dueNumber id = some m → s.seqCtr ≤ m ∧ ¬ s.ToLast m) :
    Behind (s.handleExpired id) ∧ s.seqCtr ≤ (s.handleExpired id).seqCtr := by
  rcases handleExpired_cases s id with ⟨-, hsame | ⟨htaken, -⟩⟩ | ⟨m, pdu, hdue, hfirst, hnext⟩
  · rw [hsame]
    exact ⟨h, le_rfl⟩
  · rw [htaken]
    exact ⟨h.congr rfl rfl rfl, le_rfl⟩
  · obtain ⟨hle, hlast⟩ := hruns m hdue
    obtain ⟨hm, -⟩ := OrdMap.first?_eq_some hfirst
    have hgiven : Behind ((s.takeEvent id).giveUp m) := by
      refine ⟨le_trans h.pos hle, h.queued m pdu hm, h.nodup, ?_, ?_⟩
      · intro k hk
        exact lt_of_lt_of_le (h.below k hk) hle
      · intro k a hk
        simp only [giveUp, takeEvent, OrdMap.find?_erase] at hk
        split_ifs at hk
        exact h.queued k a hk
    have hgap : ¬ ((s.takeEvent id).giveUp m).ToLast m := by
      intro hall
      apply hlast
      intro k hk hlt
      have hkept := hall k hk hlt
      simp only [giveUp, takeEvent, OrdMap.find?_erase] at hkept
      rwa [if_neg (by omega)] at hkept
    rw [hnext]
    have hctr : ((s.takeEvent id).giveUp m).seqCtr = m := rfl
    obtain ⟨hdone, hge⟩ := hgiven.deliverPdu hctr hgap pdu
    exact ⟨hdone, by omega⟩

/-- The PDUs a restart drops are not behind the counter. -/
theorem Behind.discardExpired {currTime : ℤ} (fuel : ℕ) (h : Behind s)
    (hfirst : ∀ m pdu, s.pduMap.first? = some (m, pdu) → expirationTs pdu < currTime →
      s.seqCtr ≤ m + 1)
    (hlast : (∃ pdu, s.pduMap.find? (2 ^ 64 - 1) = some pdu) →
      ∃ m pdu, s.pduMap.find? m = some pdu ∧ currTime ≤ expirationTs pdu) :
    Behind (discardExpired expirationTs currTime fuel s) ∧
      s.seqCtr ≤ (discardExpired expirationTs currTime fuel s).seqCtr := by
  induction fuel generalizing s with
  | zero => exact ⟨h, le_rfl⟩
  | succ fuel ih =>
    simp only [DataPduCollector.discardExpired]
    cases hhead : s.pduMap.first? with
    | none => exact ⟨h, le_rfl⟩
    | some p =>
      obtain ⟨m, pdu⟩ := p
      obtain ⟨hm, hleast⟩ := OrdMap.first?_eq_some hhead
      dsimp only
      split_ifs with hexpired
      · have hle := hfirst m pdu hhead hexpired
        have hlt : m + 1 < 2 ^ 64 := by
          by_contra hge
          have heq : m = 2 ^ 64 - 1 := by
            have hword := h.queued m pdu hm
            omega
          obtain ⟨j, a, hj, hkept⟩ := hlast ⟨pdu, heq ▸ hm⟩
          have hjm : j = m := by
            have hmj := hleast j a hj
            have hword := h.queued j a hj
            omega
          subst hjm
          cases hm.symm.trans hj
          omega
        have hrest {j : ℕ} {a : α} (hj : (s.pduMap.erase m).find? j = some a) :
            j ≠ m ∧ s.pduMap.find? j = some a := by
          rw [OrdMap.find?_erase] at hj
          split_ifs at hj with hjm
          exact ⟨hjm, hj⟩
        rw [u64_of_lt hlt]
        have hbehind : Behind { s with seqCtr := m + 1, pduMap := s.pduMap.erase m } :=
          ⟨Nat.le_add_left 1 m, hlt, h.nodup, fun k hk => lt_of_lt_of_le (h.below k hk) hle,
            fun j a hj => h.queued j a (hrest hj).2⟩
        have hnext : ∀ j a, (s.pduMap.erase m).first? = some (j, a) → expirationTs a < currTime →
            m + 1 ≤ j + 1 := by
          intro j a hj _
          exact Nat.succ_le_succ (hleast j a (hrest (OrdMap.first?_eq_some hj).1).2)
        have hkeep : (∃ a, (s.pduMap.erase m).find? (2 ^ 64 - 1) = some a) →
            ∃ j a, (s.pduMap.erase m).find? j = some a ∧ currTime ≤ expirationTs a := by
          rintro ⟨a, ha⟩
          obtain ⟨j, b, hj, hkept⟩ := hlast ⟨a, (hrest ha).2⟩
          refine ⟨j, b, ?_, hkept⟩
          rw [OrdMap.find?_erase, if_neg]
          · exact hj
          · rintro rfl
            cases hm.symm.trans hj
            omega
        obtain ⟨hdone, hge⟩ := ih hbehind hnext hkeep
        exact ⟨hdone, le_trans hle hge⟩
      · exact ⟨h.congr rfl rfl rfl, le_rfl⟩

theorem Behind.storedStep (h : Behind s) {e : StoredEvent α} (hword : e.Word)
    (hruns : Runs expirationTs s e) (hstep : storedStep expirationTs s e = .ok s') :
    Behind s' ∧ StepRight s e s' := by
  have hright (hdone : Behind s') (hle : s.seqCtr ≤ s'.seqCtr)
      (hpos : ∀ pdu, e ≠ .live (.received 0 pdu)) : StepRight s e s' :=
    ⟨hle, fun pdu he => absurd he (hpos pdu), hdone.nodup.filter _⟩
  cases e with
  | restart currTime =>
    cases hstep
    have hreset : Behind { s with timer := none, timers := .empty } := h.congr rfl rfl rfl
    obtain ⟨hdone, hle⟩ := hreset.discardExpired (s.pduMap.size + 1) hruns.1 hruns.2
    exact ⟨hdone, hright hdone hle (fun pdu => by simp)⟩
  | live e =>
    cases hstep
    cases e with
    | received n pdu =>
      obtain ⟨hdone, hle⟩ := h.pduReceived hword hruns.1 hruns.2 pdu
      refine ⟨hdone, hright hdone hle ?_⟩
      intro pdu' heq
      injection heq with heq
      injection heq with heq
      exact hruns.1 heq
    | fire id =>
      have hsame : (s.postTimer id).seqCtr = s.seqCtr ∧ (s.postTimer id).pduMap = s.pduMap ∧
          (s.postTimer id).delivered = s.delivered := by
        unfold postTimer
        cases s.timers.find? id <;> exact ⟨rfl, rfl, rfl⟩
      have hdone := h.congr hsame.1 hsame.2.1 hsame.2.2
      exact ⟨hdone, hright hdone hsame.1.ge (fun pdu => by simp)⟩
    | expired id =>
      obtain ⟨hdone, hle⟩ := h.handleExpired hruns
      exact ⟨hdone, hright hdone hle (fun pdu => by simp)⟩

theorem behind_initial : Behind ({} : DataPduCollector α) := by
  constructor
  · exact le_rfl
  · exact Nat.one_lt_two_pow (by decide)
  · exact List.nodup_nil
  · intro n hn
    cases hn
  · intro n pdu hn
    cases hn

/-- In a run that leaves the counter to run, over restarts at any time, it never runs wrong. -/
theorem collector_never_wrong (expirationTs : α → ℤ) {events : List (StoredEvent α)}
    (hword : ∀ e ∈ events, e.Word) (hruns : Meets (storedStep expirationTs) (Runs expirationTs) {} events) :
    NeverWrong expirationTs events := by
  intro i s e s' hrun hi hstep
  have hmem := List.mem_of_getElem? hi
  have hnext : ∀ (s : DataPduCollector α) (past : List (StoredEvent α)) (e : StoredEvent α),
      Behind s → Runs expirationTs s e ∧ e.Word →
      ∃ s', storedStep expirationTs s e = .ok s' ∧ Behind s' := by
    intro s past e h he
    cases hnext : storedStep expirationTs s e with
    | ok t => exact ⟨t, rfl, (h.storedStep he.2 he.1 hnext).1⟩
    | error x => exact x.elim
  have htake := (hruns.take i).and_forall (fun e he => hword e (List.mem_of_mem_take he))
  obtain ⟨t, ht, hbehind⟩ := run_invariant (fun s _ => Behind s) hnext behind_initial htake
  cases hrun.symm.trans ht
  exact (hbehind.storedStep (hword e hmem) (hruns.at_index hrun hi) hstep).2

/-- A PDU waits for number 1 and has expired at the restart. -/
def restartEvents : List (StoredEvent ℤ) :=
  [.live (.received 2 4), .restart 5, .live (.received 3 9)]

theorem collector_never_wrong_restart : NeverWrong (fun ts => ts) restartEvents := by
  apply collector_never_wrong
  · simp [restartEvents, StoredEvent.Word]
  · have hnone : ((({} : DataPduCollector ℤ).handle (.received 2 4)).pduMap.find? (2 ^ 64 - 1)) = none := by
      decide +kernel
    refine ⟨⟨by decide, ?_⟩, ⟨?_, ?_⟩, ⟨by decide, ?_⟩, trivial⟩
    · intro h
      exact absurd h (by decide +kernel)
    · rintro m pdu hfirst -
      exact Nat.le_add_left 1 m
    · rintro ⟨pdu, hpdu⟩
      cases hnone.symm.trans hpdu
    · intro _ hall
      exact absurd (hall 4 (by decide) (by decide)) (by decide +kernel)

/-- A PDU that is not sequenced moves the counter. -/
theorem unsequenced_counts :
    ¬ ∀ events : List (StoredEvent ℤ), (∀ e ∈ events, e.Word) → NeverWrong (fun ts => ts) events := by
  intro h
  have hright := h [.live (.received 0 9)] (by simp [StoredEvent.Word]) 0 {} _ _ rfl rfl rfl
  have hcounter := (hright.unsequenced 9 rfl).1
  revert hcounter
  decide +kernel

/-- A restart drops number 2 and leaves number 3, which is now expected, in the queue. A copy of it is
delivered, and then the one in the queue. -/
example : ∃ s, run (storedStep (fun ts => ts)) {} [.live (.received 2 4), .live (.received 3 9),
    .restart 5, .live (.received 3 9), .live (.fire 1), .live (.expired 1)] = .ok s ∧
    s.numbers = [3, 3] := by
  decide +kernel

end DataPduCollector

end Dtnme.Dtpc
