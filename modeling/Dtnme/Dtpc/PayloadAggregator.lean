import Dtnme.Bundling.Bp6Block
import Dtnme.Library.OrdMap
import Dtnme.Library.Transition

/-! # Aggregation of data items into DTPC payloads

A payload aggregator collects the data items for one destination and profile, topic by
topic, and sends them together in one PDU when their size passes a limit or when the
aggregation timer expires. No topic here has an elision function.
-/

namespace Dtnme.Dtpc

open Dtnme.Bundling
open Dtnme.Library

/-- What ends a handler: a PDU read after it was deleted, or a list that cannot grow. -/
inductive Fault
  | usedAfterDelete
  | outOfMemory
  deriving DecidableEq, Repr

/-- A 32-bit identifier of a topic or a profile. -/
abbrev Id := Fin (2 ^ 32)

instance : LawfulBEq Id := inferInstance

/-- The fields of `DtpcProfile` that aggregation and retransmission read. -/
structure Profile where
  profileId : Id
  expiration : ℕ
  retransmissionLimit : ℕ
  aggregationSizeLimit : ℕ
  aggregationTimeLimit : ℕ
  deriving DecidableEq, Repr

/-- `DtpcApplicationDataItem`: the data, whose size is an `int`. -/
structure DataItem where
  data : List UInt8
  short : data.length < 2 ^ 31
  deriving DecidableEq

def DataItem.size (item : DataItem) : ℕ := item.data.length

/-- `DtpcPayloadAggregator`. A topic aggregator is the list of its items, the timer is the
counter it was started with, and `sent` keeps the payloads of the transmitted PDUs. -/
structure PayloadAggregator where
  seqCtr : ℕ := 1
  size : ℕ := 0
  topicAggMap : OrdMap Id (List DataItem) := .empty
  timer : Option ℕ := none
  sent : List (List UInt8) := []
  deriving DecidableEq

namespace PayloadAggregator

/-- The items that a topic aggregator holds. -/
def held (s : PayloadAggregator) (topic : Id) : List DataItem :=
  (s.topicAggMap.find? topic).getD []

/-- One payload record: the size of an item and its data. -/
def encodeItem (item : DataItem) : List UInt8 := sdnv item.size ++ item.data

/-- `load_payload` of one topic: the topic block, if there are items. -/
def loadPayload (topic : Id) (items : List DataItem) : List UInt8 :=
  if 0 < items.length then
    sdnv topic.val ++ sdnv items.length ++ items.flatMap encodeItem
  else []

/-- `load_payload` leaves a topic aggregator without items. -/
def unload (s : PayloadAggregator) : PayloadAggregator :=
  { s with topicAggMap := s.topicAggMap.mapVal fun _ _ => [] }

/-- The flags byte, the profile and the sequence number, which is 0 without transmission
service. -/
def header (s : PayloadAggregator) (p : Profile) : List UInt8 :=
  [0] ++ sdnv p.profileId.val ++ sdnv (if 0 < p.retransmissionLimit then s.seqCtr else 0)

/-- The topic blocks of all topics, in the order of the map. -/
def body (s : PayloadAggregator) : List UInt8 :=
  s.topicAggMap.entries.flatMap fun e => loadPayload e.1 e.2

/-- `transmit_pdu`, and the increment of the counter that follows it. -/
def transmitPdu (s : PayloadAggregator) (payload : List UInt8) : PayloadAggregator :=
  { s with sent := s.sent ++ [payload], size := 0, seqCtr := u64 (s.seqCtr + 1) }

def startTimer (s : PayloadAggregator) : PayloadAggregator := { s with timer := some s.seqCtr }

def clearTimer (s : PayloadAggregator) : PayloadAggregator := { s with timer := none }

/-- The part of `send_payload` that builds the payload and sends it, if any data was loaded. -/
def flush (s : PayloadAggregator) (p : Profile) : PayloadAggregator :=
  if 0 < s.body.length then s.unload.transmitPdu (s.header p ++ s.body) else s.unload

/-- `send_payload`. -/
def sendPayload (s : PayloadAggregator) (p : Profile) : PayloadAggregator :=
  if 0 < p.aggregationTimeLimit then (s.flush p).startTimer else s.flush p

/-- A topic aggregator with its list of items. -/
def assign (s : PayloadAggregator) (topic : Id) (items : List DataItem) : PayloadAggregator :=
  { s with topicAggMap := s.topicAggMap.insert topic items }

def addSize (s : PayloadAggregator) (delta : ℕ) : PayloadAggregator := { s with size := s.size + delta }

/-- Find or create the topic aggregator and let it take the item. It refuses an item whose topic
is not in the topic table. A list holds less than `2 ^ 64` items. -/
def storeItem (s : PayloadAggregator) (table : List Id) (topic : Id) (item : DataItem) :
    Except Fault PayloadAggregator :=
  if topic ∈ table then
    if (s.held topic).length + 1 < 2 ^ 64 then
      .ok ((s.assign topic (s.held topic ++ [item])).addSize item.size)
    else .error .outOfMemory
  else .ok (s.assign topic (s.held topic))

/-- What `send_data_item` does after the item is stored. -/
def afterStore (s : PayloadAggregator) (p : Profile) : PayloadAggregator :=
  if p.aggregationSizeLimit < s.size then s.clearTimer.sendPayload p
  else if s.timer = none ∧ 0 < p.aggregationTimeLimit then s.startTimer
  else s

/-- `send_data_item`. -/
def sendDataItem (s : PayloadAggregator) (p : Profile) (table : List Id) (topic : Id)
    (item : DataItem) : Except Fault PayloadAggregator := do
  let s ← s.storeItem table topic item
  return s.afterStore p

/-- `timer_expired`. -/
def timerExpired (s : PayloadAggregator) (p : Profile) (seqCtr : ℕ) : PayloadAggregator :=
  if seqCtr ≠ s.seqCtr then s else s.clearTimer.sendPayload p

inductive Call
  | sendDataItem (topic : Id) (item : DataItem)
  | timerExpired (seqCtr : ℕ)
  deriving DecidableEq

def step (p : Profile) (table : List Id) (s : PayloadAggregator) :
    Call → Except Fault PayloadAggregator
  | .sendDataItem topic item => s.sendDataItem p table topic item
  | .timerExpired seqCtr => .ok (s.timerExpired p seqCtr)

/-- The topic of an item is in the topic table. -/
def Call.Known (table : List Id) : Call → Prop
  | .sendDataItem topic _ => topic ∈ table
  | .timerExpired _ => True

instance (table : List Id) : DecidablePred (Call.Known table)
  | .sendDataItem topic _ => inferInstanceAs (Decidable (topic ∈ table))
  | .timerExpired _ => inferInstanceAs (Decidable True)

/-- The items handed in for a topic, in order. -/
def submitted (topic : Id) : List Call → List DataItem
  | [] => []
  | .sendDataItem t item :: calls => if t = topic then item :: submitted topic calls
    else submitted topic calls
  | .timerExpired _ :: calls => submitted topic calls

/-! ## What a payload carries -/

/-- The topic blocks of a payload, before they are encoded. -/
abbrev Contents := List (Id × List DataItem)

def encodeBlocks (c : Contents) : List UInt8 := c.flatMap fun e => loadPayload e.1 e.2

/-- The items of one topic. -/
def itemsOf (topic : Id) (c : Contents) : List DataItem :=
  c.flatMap fun e => if e.1 = topic then e.2 else []

/-- There are blocks, one for each of some topics, and no block is empty. -/
structure Proper (c : Contents) : Prop where
  nonempty : c ≠ []
  counted : ∀ e ∈ c, 0 < e.2.length ∧ e.2.length < 2 ^ 64
  distinct : c.Pairwise fun e e' => e.1 < e'.1

/-- A payload is a header and the encoding of these blocks. -/
def Carries (p : Profile) (c : Contents) (payload : List UInt8) : Prop :=
  Proper c ∧ ∃ psn < 2 ^ 64, payload = [0] ++ sdnv p.profileId.val ++ sdnv psn ++ encodeBlocks c

/-- The blocks that `send_payload` loads. -/
def loaded (s : PayloadAggregator) : Contents :=
  s.topicAggMap.entries.filter fun e => decide (0 < e.2.length)

theorem itemsOf_filter (topic : Id) (c : Contents) :
    itemsOf topic (c.filter fun e => decide (0 < e.2.length)) = itemsOf topic c := by
  induction c with
  | nil => rfl
  | cons e c ih =>
    simp only [itemsOf] at ih ⊢
    by_cases hpos : 0 < e.2.length
    · rw [List.filter_cons_of_pos (by simpa using hpos)]
      simp only [List.flatMap_cons, ih]
    · have hnil : e.2 = [] := by simpa using hpos
      rw [List.filter_cons_of_neg (by simpa using hpos)]
      simp only [List.flatMap_cons, ih, hnil, ite_self, List.nil_append]

theorem itemsOf_entries {topic : Id} {l : Contents} (hl : l.Pairwise fun e e' => e.1 < e'.1) :
    itemsOf topic l = (OrdMap.lookup topic l).getD [] := by
  induction l with
  | nil => rfl
  | cons e l ih =>
    obtain ⟨t, items⟩ := e
    obtain ⟨hfirst, hl⟩ := List.pairwise_cons.mp hl
    simp only [itemsOf, List.flatMap_cons, OrdMap.lookup] at ih ⊢
    split_ifs with ht
    · subst ht
      have hrest : OrdMap.lookup t l = none := by
        cases hlook : OrdMap.lookup t l with
        | none => rfl
        | some v => exact absurd (hfirst _ ((OrdMap.lookup_eq_some_iff hl).mp hlook)) (lt_irrefl _)
      rw [ih hl, hrest]
      simp
    · simpa using ih hl

theorem itemsOf_loaded (s : PayloadAggregator) (topic : Id) :
    itemsOf topic s.loaded = s.held topic := by
  rw [loaded, itemsOf_filter, itemsOf_entries s.topicAggMap.sorted]
  rfl

theorem body_eq (s : PayloadAggregator) : s.body = encodeBlocks s.loaded := by
  unfold body encodeBlocks loaded
  induction s.topicAggMap.entries with
  | nil => rfl
  | cons e l ih =>
    by_cases hpos : 0 < e.2.length
    · rw [List.filter_cons_of_pos (by simpa using hpos), List.flatMap_cons, List.flatMap_cons, ih]
    · rw [List.filter_cons_of_neg (by simpa using hpos), List.flatMap_cons, ih]
      simp [loadPayload, hpos]

theorem length_loadPayload (topic : Id) {items : List DataItem} (h : 0 < items.length) :
    0 < (loadPayload topic items).length := by
  have htopic : topic.val < 2 ^ 64 := lt_trans topic.isLt (by norm_num)
  have := encodingLen_pos topic.val
  rw [loadPayload, if_pos h, List.length_append, List.length_append, length_sdnv htopic]
  omega

/-- Data was loaded exactly if some topic held items. -/
theorem length_body_pos_iff (s : PayloadAggregator) : 0 < s.body.length ↔ s.loaded ≠ [] := by
  rw [body_eq]
  cases hloaded : s.loaded with
  | nil => simp [encodeBlocks]
  | cons e c =>
    have he : e ∈ s.loaded := by simp [hloaded]
    have hpos : 0 < e.2.length := by simpa using (List.mem_filter.mp he).2
    have := length_loadPayload e.1 hpos
    simp only [encodeBlocks, List.flatMap_cons, List.length_append]
    constructor
    · exact fun _ => List.cons_ne_nil _ _
    · intro
      omega

@[simp] theorem held_unload (s : PayloadAggregator) (topic : Id) : s.unload.held topic = [] := by
  cases h : s.topicAggMap.find? topic <;> simp [held, unload, h]

/-! ## No item is lost -/

/-- The bytes of items. -/
def totalSize (items : List DataItem) : ℕ := (items.map DataItem.size).sum

/-- What holds of an aggregator between two calls, after the calls `past`. -/
structure Conserved (p : Profile) (past : List Call) (s : PayloadAggregator) : Prop where
  counter : s.seqCtr < 2 ^ 64
  lists : ∀ topic, (s.held topic).length < 2 ^ 64
  sized : s.size = s.topicAggMap.sum totalSize
  contents : ∃ cs, List.Forall₂ (Carries p) cs s.sent ∧
    ∀ topic, cs.flatMap (itemsOf topic) ++ s.held topic = submitted topic past

/-- With a time limit, a timer for the present counter is set while items are held. -/
def Timed (p : Profile) (s : PayloadAggregator) : Prop :=
  0 < p.aggregationTimeLimit →
    s.timer = some s.seqCtr ∨ s.timer = none ∧ ∀ topic, s.held topic = []

variable {p : Profile} {table : List Id} {s s' : PayloadAggregator} {past : List Call}

theorem submitted_append (topic : Id) (calls calls' : List Call) :
    submitted topic (calls ++ calls') = submitted topic calls ++ submitted topic calls' := by
  induction calls with
  | nil => rfl
  | cons call calls ih =>
    cases call with
    | sendDataItem t item =>
      simp only [List.cons_append, submitted, ih]
      split_ifs <;> rfl
    | timerExpired => simpa only [List.cons_append, submitted] using ih

theorem proper_loaded (hlists : ∀ topic, (s.held topic).length < 2 ^ 64) (h : s.loaded ≠ []) :
    Proper s.loaded := by
  constructor
  · exact h
  · intro e he
    obtain ⟨hmem, hpos⟩ := List.mem_filter.mp he
    have hfind : s.topicAggMap.find? e.1 = some e.2 := OrdMap.find?_eq_some_iff.mpr hmem
    have hlen := hlists e.1
    rw [held, hfind] at hlen
    exact ⟨by simpa using hpos, hlen⟩
  · exact s.topicAggMap.sorted.filter _

theorem sum_of_loaded_nil (h : s.loaded = []) : s.topicAggMap.sum totalSize = 0 := by
  apply List.sum_eq_zero
  intro n hn
  obtain ⟨e, he, rfl⟩ := List.mem_map.mp hn
  have hempty := List.filter_eq_nil_iff.mp h e he
  have hnil : e.2 = [] := by simpa using hempty
  simp [hnil, totalSize]

theorem sum_unload (s : PayloadAggregator) : s.unload.topicAggMap.sum totalSize = 0 := by
  apply sum_of_loaded_nil
  simp [loaded, unload, OrdMap.mapVal]

/-- A flush moves what is held into one payload, and nothing is held after it. -/
theorem Conserved.flush (h : Conserved p past s) :
    Conserved p past (s.flush p) ∧ (∀ topic, (s.flush p).held topic = []) ∧
      (s.flush p).timer = s.timer := by
  obtain ⟨cs, hcs, hitems⟩ := h.contents
  unfold PayloadAggregator.flush
  split_ifs with hbody
  · have hloaded := (length_body_pos_iff s).mp hbody
    have hheld : ∀ topic, (s.unload.transmitPdu (s.header p ++ s.body)).held topic = [] :=
      held_unload s
    refine ⟨⟨u64_lt _, ?_, (sum_unload s).symm, cs ++ [s.loaded], ?_, ?_⟩, hheld, rfl⟩
    · intro topic
      rw [hheld]
      norm_num
    · refine List.rel_append hcs (List.Forall₂.cons ⟨proper_loaded h.lists hloaded, ?_⟩ .nil)
      refine ⟨_, ?_, by rw [header, body_eq]⟩
      split_ifs
      · exact h.counter
      · norm_num
    · intro topic
      rw [hheld, List.append_nil, List.flatMap_append, List.flatMap_singleton, itemsOf_loaded]
      exact hitems topic
  · have hloaded : s.loaded = [] := by
      rw [length_body_pos_iff, not_not] at hbody
      exact hbody
    have hempty : ∀ topic, s.held topic = [] := by
      intro topic
      rw [← itemsOf_loaded, hloaded]
      rfl
    refine ⟨⟨h.counter, ?_, ?_, cs, hcs, ?_⟩, held_unload s, rfl⟩
    · intro topic
      rw [held_unload]
      norm_num
    · exact (h.sized.trans (sum_of_loaded_nil hloaded)).trans (sum_unload s).symm
    · intro topic
      rw [held_unload, ← hempty topic]
      exact hitems topic

theorem Conserved.congr (h : Conserved p past s) (hseq : s'.seqCtr = s.seqCtr)
    (hsize : s'.size = s.size) (hmap : s'.topicAggMap = s.topicAggMap) (hsent : s'.sent = s.sent) :
    Conserved p past s' := by
  have hheld : s'.held = s.held := by
    funext topic
    rw [held, held, hmap]
  constructor
  · rw [hseq]
    exact h.counter
  · rw [hheld]
    exact h.lists
  · rw [hsize, hmap]
    exact h.sized
  · rw [hheld, hsent]
    exact h.contents

/-- A sent payload leaves nothing held, and a timer for the next one. -/
theorem Conserved.sendPayload (h : Conserved p past s) :
    Conserved p past (s.sendPayload p) ∧ (∀ topic, (s.sendPayload p).held topic = []) ∧
      (0 < p.aggregationTimeLimit →
        (s.sendPayload p).timer = some (s.sendPayload p).seqCtr) := by
  obtain ⟨hflush, hheld, -⟩ := h.flush
  unfold PayloadAggregator.sendPayload
  split_ifs with htime
  · exact ⟨hflush.congr rfl rfl rfl rfl, hheld, fun _ => rfl⟩
  · exact ⟨hflush, hheld, fun hpos => absurd hpos htime⟩

theorem held_assign (s : PayloadAggregator) (topic t : Id) (items : List DataItem) :
    (s.assign topic items).held t = if t = topic then items else s.held t := by
  simp only [held, assign, OrdMap.find?_insert]
  split_ifs <;> rfl

theorem sum_assign (s : PayloadAggregator) (topic : Id) (item : DataItem) :
    (s.assign topic (s.held topic ++ [item])).topicAggMap.sum totalSize =
      s.topicAggMap.sum totalSize + item.size := by
  unfold assign held
  cases hfind : s.topicAggMap.find? topic with
  | none =>
    rw [OrdMap.sum_insert totalSize hfind, Nat.add_comm]
    simp [totalSize]
  | some items =>
    have hupdate := OrdMap.sum_update (w := items ++ [item]) totalSize hfind
    simp only [totalSize, Option.getD_some, List.map_append, List.map_singleton,
      List.sum_append, List.sum_singleton] at hupdate ⊢
    omega

theorem Conserved.storeItem {topic : Id} {item : DataItem} (h : Conserved p past s)
    (htopic : topic ∈ table) (hok : s.storeItem table topic item = .ok s') :
    Conserved p (past ++ [.sendDataItem topic item]) s' ∧ s'.timer = s.timer ∧
      s'.seqCtr = s.seqCtr := by
  unfold PayloadAggregator.storeItem at hok
  rw [if_pos htopic] at hok
  split_ifs at hok with hroom
  cases hok
  have hheld : ∀ t, ((s.assign topic (s.held topic ++ [item])).addSize item.size).held t =
      if t = topic then s.held topic ++ [item] else s.held t := fun t => held_assign s topic t _
  obtain ⟨cs, hcs, hitems⟩ := h.contents
  refine ⟨⟨h.counter, ?_, ?_, cs, hcs, ?_⟩, rfl, rfl⟩
  · intro t
    rw [hheld]
    split_ifs
    · simpa using hroom
    · exact h.lists t
  · change s.size + item.size = _
    rw [h.sized, ← sum_assign]
    rfl
  · intro t
    rw [hheld, submitted_append, ← hitems t]
    simp only [submitted]
    split_ifs with heq hne hne
    · rw [heq, List.append_assoc]
    · exact absurd heq.symm hne
    · exact absurd hne.symm heq
    · exact (List.append_nil _).symm

/-- One call keeps the invariants. -/
theorem Conserved.step {call : Call} (h : Conserved p past s) (ht : Timed p s)
    (hknown : call.Known table)
    (hok : PayloadAggregator.step p table s call = .ok s') :
    Conserved p (past ++ [call]) s' ∧ Timed p s' := by
  cases call with
  | sendDataItem topic item =>
    simp only [PayloadAggregator.step, PayloadAggregator.sendDataItem, bind, Except.bind] at hok
    cases hstore : s.storeItem table topic item with
    | error e => simp [hstore] at hok
    | ok s₁ =>
      obtain ⟨hstored, htimer, hseq⟩ := h.storeItem hknown hstore
      simp only [hstore] at hok
      cases hok
      unfold PayloadAggregator.afterStore
      split_ifs with hsize hstart
      · have hclear : Conserved p _ s₁.clearTimer := hstored.congr rfl rfl rfl rfl
        obtain ⟨hsent, hheld, htimed⟩ := hclear.sendPayload
        exact ⟨hsent, fun hpos => Or.inl (htimed hpos)⟩
      · exact ⟨hstored.congr rfl rfl rfl rfl, fun _ => Or.inl rfl⟩
      · refine ⟨hstored, fun hpos => Or.inl ?_⟩
        rcases ht hpos with hset | ⟨hnone, -⟩
        · rw [htimer, hseq, hset]
        · exact absurd ⟨htimer.trans hnone, hpos⟩ hstart
  | timerExpired seqCtr =>
    cases hok
    have hpast : Conserved p (past ++ [.timerExpired seqCtr]) s := by
      refine ⟨h.counter, h.lists, h.sized, ?_⟩
      simpa only [submitted_append, submitted, List.append_nil] using h.contents
    unfold PayloadAggregator.timerExpired
    split_ifs with hstale
    · exact ⟨hpast, ht⟩
    · have hclear : Conserved p _ s.clearTimer := hpast.congr rfl rfl rfl rfl
      obtain ⟨hsent, hheld, htimed⟩ := hclear.sendPayload
      exact ⟨hsent, fun hpos => Or.inl (htimed hpos)⟩

theorem conserved_initial (p : Profile) : Conserved p [] {} := by
  refine ⟨by norm_num, fun topic => by simp [held], rfl, [], .nil, fun topic => rfl⟩

/-- After any calls every item is in the payloads, in order, or still held. -/
theorem run_conserved {calls : List Call} (hknown : ∀ call ∈ calls, call.Known table)
    (hrun : run (step p table) {} calls = .ok s) : Conserved p calls s ∧ Timed p s := by
  apply run_ok_invariant (fun s past => Conserved p past s ∧ Timed p s) ?_ ?_ hrun
  · rintro s past call s' hpast ⟨h, ht⟩ hok
    exact h.step ht (hknown call (hpast.subset (by simp))) hok
  · exact ⟨conserved_initial p, fun _ => Or.inr ⟨rfl, fun topic => by simp [held]⟩⟩

end PayloadAggregator

end Dtnme.Dtpc
