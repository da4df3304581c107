import Dtnme.Dtpc.PayloadAggregator

/-! # Reception of DTPC payloads

The receiver checks the structure of a payload before it passes the PDU on, and the
collector parses the topic blocks a second time when it delivers the PDU. Both accept
what an aggregator sends, and the second finds exactly the items that were put in.
-/

namespace Dtnme.Dtpc

open Dtnme.Bundling
open Dtnme.Library

namespace Receiver

/-- A value at the front of a buffer, and the bytes after it. -/
def nextSdnv (buf : List UInt8) : Option (ℕ × List UInt8) :=
  (readSdnv buf).map fun (val, n) => (val, buf.drop n)

/-- The variant for 32-bit values. -/
def nextSdnv32 (buf : List UInt8) : Option (Id × List UInt8) :=
  (decode32 (memOf buf 0) 0 buf.length).result.map fun (val, n) =>
    (Fin.ofNat (2 ^ 32) val, buf.drop n)

/-- The loop of `receive_bundle` over the items of a topic. -/
def skipItems : ℕ → List UInt8 → Option (List UInt8)
  | 0, buf => some buf
  | recCount + 1, buf =>
    match nextSdnv buf with
    | none => none
    | some (adiLen, buf) =>
      if buf.length < adiLen then none else skipItems recCount (buf.drop adiLen)

/-- The loop of `receive_bundle` over the topics. -/
def validTopics : ℕ → List UInt8 → Bool
  | 0, buf => buf.isEmpty
  | fuel + 1, buf =>
    if buf = [] then true
    else
      match nextSdnv32 buf with
      | none => false
      | some (_, buf) =>
        match nextSdnv buf with
        | none => false
        | some (recCount, buf) =>
          if recCount = 0 then false
          else
            match skipItems recCount buf with
            | none => false
            | some buf => validTopics fuel buf

/-- What `receive_bundle` makes of a payload. -/
inductive Reception
  | rejected
  | ack (profileId : Id) (seqCtr : ℕ)
  | data (profileId : Id) (seqCtr : ℕ) (topicBlocks : List UInt8)
  deriving DecidableEq

/-- The fields after the flags byte. -/
def receiveFields (isAck : Bool) (buf : List UInt8) : Reception :=
  match nextSdnv32 buf with
  | none => .rejected
  | some (profileId, buf) =>
    match nextSdnv buf with
    | none => .rejected
    | some (seqCtr, buf) =>
      if isAck then if 0 < buf.length then .rejected else .ack profileId seqCtr
      else if validTopics buf.length buf then .data profileId seqCtr buf
      else .rejected

/-- `receive_bundle`. -/
def receiveBundle : List UInt8 → Reception
  | [] => .rejected
  | flags :: buf =>
    if (flags &&& 0xc0) >>> 6 ≠ 0 then .rejected else receiveFields (flags &&& 1 == 1) buf

/-- `DtpcTopicTable`, and whether topics must be predefined. -/
structure TopicTable where
  topics : List Id
  requirePredefinedTopics : Bool
  deriving DecidableEq, Repr

/-- `validate_topic_id`, which may add the topic on the fly. -/
def validateTopicId (t : TopicTable) (topic : Id) : Bool × TopicTable :=
  if topic ∈ t.topics then (true, t)
  else if t.requirePredefinedTopics then (false, t)
  else (true, { t with topics := topic :: t.topics })

/-- The loop of `deliver_pdu` over the items of a topic. -/
def takeItems : ℕ → List UInt8 → Option (List (List UInt8) × List UInt8)
  | 0, buf => some ([], buf)
  | recCount + 1, buf =>
    match nextSdnv buf with
    | none => none
    | some (adiLen, buf) =>
      if buf.length < adiLen then none
      else
        match takeItems recCount (buf.drop adiLen) with
        | none => none
        | some (items, rest) => some (buf.take adiLen :: items, rest)

/-- The loop of `deliver_pdu` over the topics: what is delivered, and the topic table. -/
def deliverTopics : ℕ → TopicTable → List UInt8 → List (Id × List (List UInt8)) × TopicTable
  | 0, t, _ => ([], t)
  | fuel + 1, t, buf =>
    if buf = [] then ([], t)
    else
      match nextSdnv32 buf with
      | none => ([], t)
      | some (topic, buf) =>
        let (valid, t) := validateTopicId t topic
        match nextSdnv buf with
        | none => ([], t)
        | some (recCount, buf) =>
          if recCount = 0 then ([], t)
          else
            match takeItems recCount buf with
            | none => ([], t)
            | some (items, buf) =>
              let (delivered, t) := deliverTopics fuel t buf
              (if valid then (topic, items) :: delivered else delivered, t)

/-- `deliver_pdu`. -/
def deliverPdu (t : TopicTable) (topicBlocks : List UInt8) :
    List (Id × List (List UInt8)) × TopicTable :=
  deliverTopics topicBlocks.length t topicBlocks

open PayloadAggregator

theorem nextSdnv_sdnv {val : ℕ} (h : val < 2 ^ 64) (rest : List UInt8) :
    nextSdnv (sdnv val ++ rest) = some (val, rest) := by
  simp only [nextSdnv, readSdnv_sdnv h, Option.map_some, List.drop_left' (length_sdnv h)]

theorem nextSdnv32_sdnv (id : Id) (rest : List UInt8) :
    nextSdnv32 (sdnv id.val ++ rest) = some (id, rest) := by
  have h64 : id.val < 2 ^ 64 := lt_trans id.isLt (by norm_num)
  have hread := decode32_eq_some.mpr ⟨readSdnv_sdnv h64 rest, id.isLt⟩
  simp only [nextSdnv32, hread, Option.map_some, List.drop_left' (length_sdnv h64)]
  simp

theorem takeItems_encode (items : List DataItem) (rest : List UInt8) :
    takeItems items.length (items.flatMap encodeItem ++ rest) =
      some (items.map DataItem.data, rest) := by
  induction items with
  | nil => rfl
  | cons item items ih =>
    have hsize : item.size < 2 ^ 64 := lt_trans item.short (by norm_num)
    simp only [List.flatMap_cons, encodeItem, List.append_assoc, List.length_cons, takeItems,
      nextSdnv_sdnv hsize]
    rw [if_neg (by simp [DataItem.size])]
    have hdrop : (item.data ++ (items.flatMap encodeItem ++ rest)).drop item.size =
        items.flatMap encodeItem ++ rest := List.drop_left' rfl
    have htake : (item.data ++ (items.flatMap encodeItem ++ rest)).take item.size = item.data :=
      List.take_left' rfl
    rw [hdrop, htake, ih]
    rfl

/-- The two loops over the items differ in what they keep only. -/
theorem skipItems_eq (recCount : ℕ) (buf : List UInt8) :
    skipItems recCount buf = (takeItems recCount buf).map Prod.snd := by
  induction recCount generalizing buf with
  | zero => rfl
  | succ recCount ih =>
    simp only [skipItems, takeItems]
    cases nextSdnv buf with
    | none => rfl
    | some next =>
      obtain ⟨adiLen, buf⟩ := next
      dsimp only
      split_ifs
      · rfl
      · rw [ih]
        cases takeItems recCount (buf.drop adiLen) <;> rfl

theorem loadPayload_of {topic : Id} {items : List DataItem} (h : 0 < items.length)
    (rest : List UInt8) : loadPayload topic items ++ rest =
      sdnv topic.val ++ (sdnv items.length ++ (items.flatMap encodeItem ++ rest)) := by
  simp only [loadPayload, if_pos h, List.append_assoc]

theorem encodeBlocks_cons (e : Id × List DataItem) (c : Contents) :
    encodeBlocks (e :: c) = loadPayload e.1 e.2 ++ encodeBlocks c := List.flatMap_cons

theorem encodeBlocks_ne_nil {e : Id × List DataItem} (c : Contents) (h : 0 < e.2.length) :
    encodeBlocks (e :: c) ≠ [] := by
  rw [encodeBlocks_cons]
  apply List.append_ne_nil_of_left_ne_nil
  exact List.ne_nil_of_length_pos (length_loadPayload _ h)

theorem length_le_encodeBlocks {c : Contents} (hc : ∀ e ∈ c, 0 < e.2.length) :
    c.length ≤ (encodeBlocks c).length := by
  induction c with
  | nil => exact Nat.zero_le _
  | cons e c ih =>
    have := length_loadPayload e.1 (hc e List.mem_cons_self)
    have := ih fun e' he' => hc e' (List.mem_cons_of_mem _ he')
    rw [encodeBlocks_cons, List.length_append, List.length_cons]
    omega

theorem validTopics_encode {c : Contents} (hc : ∀ e ∈ c, 0 < e.2.length ∧ e.2.length < 2 ^ 64)
    {fuel : ℕ} (hfuel : c.length ≤ fuel) : validTopics fuel (encodeBlocks c) = true := by
  induction c generalizing fuel with
  | nil => cases fuel <;> rfl
  | cons e c ih =>
    obtain ⟨fuel, rfl⟩ := Nat.exists_eq_add_of_le' (Nat.le_trans (Nat.le_add_left 1 _) hfuel)
    obtain ⟨hpos, hlen⟩ := hc e List.mem_cons_self
    have hrest := ih (fun e' he' => hc e' (List.mem_cons_of_mem _ he')) (Nat.le_of_succ_le_succ hfuel)
    simp only [validTopics, if_neg (encodeBlocks_ne_nil c hpos)]
    rw [encodeBlocks_cons, loadPayload_of hpos, nextSdnv32_sdnv]
    simp only [nextSdnv_sdnv hlen, if_neg hpos.ne', skipItems_eq, takeItems_encode, Option.map_some]
    exact hrest

/-- The receiver knows the topic, or takes new ones. -/
def TopicTable.takes (t : TopicTable) (topic : Id) : Bool :=
  topic ∈ t.topics || !t.requirePredefinedTopics

def TopicTable.Admits (t : TopicTable) (topics : List Id) : Prop :=
  ∀ topic ∈ topics, t.takes topic = true

/-- A topic that is added on the fly would have been taken before. -/
theorem validateTopicId_of (t : TopicTable) (topic : Id) :
    ∃ t', validateTopicId t topic = (t.takes topic, t') ∧ t'.takes = t.takes := by
  unfold validateTopicId
  split_ifs with hknown hrequire
  · exact ⟨t, by simp [TopicTable.takes, hknown], rfl⟩
  · exact ⟨t, by simp [TopicTable.takes, hknown, hrequire], rfl⟩
  · refine ⟨{ t with topics := topic :: t.topics }, by simp [TopicTable.takes, hrequire], ?_⟩
    funext i
    simp [TopicTable.takes, hrequire]

/-- The data of the items, topic by topic. -/
def dataOf (c : Contents) : List (Id × List (List UInt8)) :=
  c.map fun e => (e.1, e.2.map DataItem.data)

/-- The topics that the receiver does not take are left out. -/
theorem deliverTopics_encode {c : Contents}
    (hc : ∀ e ∈ c, 0 < e.2.length ∧ e.2.length < 2 ^ 64) {fuel : ℕ} (hfuel : c.length ≤ fuel)
    (t : TopicTable) :
    (deliverTopics fuel t (encodeBlocks c)).1 = dataOf (c.filter fun e => t.takes e.1) := by
  induction c generalizing fuel t with
  | nil => cases fuel <;> rfl
  | cons e c ih =>
    obtain ⟨fuel, rfl⟩ := Nat.exists_eq_add_of_le' (Nat.le_trans (Nat.le_add_left 1 _) hfuel)
    obtain ⟨hpos, hlen⟩ := hc e List.mem_cons_self
    obtain ⟨t', hvalid, ht'⟩ := validateTopicId_of t e.1
    have hrest := ih (fun e' he' => hc e' (List.mem_cons_of_mem _ he'))
      (Nat.le_of_succ_le_succ hfuel) t'
    rw [ht'] at hrest
    simp only [deliverTopics, if_neg (encodeBlocks_ne_nil c hpos)]
    rw [encodeBlocks_cons, loadPayload_of hpos, nextSdnv32_sdnv]
    simp only [hvalid, nextSdnv_sdnv hlen, if_neg hpos.ne', takeItems_encode, hrest,
      List.filter_cons]
    cases t.takes e.1 <;> rfl

theorem receiveBundle_of {p : Profile} {c : Contents} {payload : List UInt8}
    (h : Carries p c payload) :
    ∃ psn, receiveBundle payload = .data p.profileId psn (encodeBlocks c) := by
  obtain ⟨hc, psn, hpsn, rfl⟩ := h
  have hvalid := validTopics_encode hc.counted
    (length_le_encodeBlocks fun e he => (hc.counted e he).1)
  refine ⟨psn, ?_⟩
  have hfields : receiveFields false
      (sdnv p.profileId.val ++ (sdnv psn ++ encodeBlocks c)) =
        .data p.profileId psn (encodeBlocks c) := by
    simp only [receiveFields, nextSdnv32_sdnv, nextSdnv_sdnv hpsn, Bool.false_eq_true, if_false,
      hvalid, if_true]
  have hflags : ∀ buf, receiveBundle (0 :: buf) = receiveFields false buf := fun _ => rfl
  simp only [List.append_assoc, List.cons_append, List.nil_append, hflags, hfields]

theorem deliverPdu_of {p : Profile} {c : Contents} {payload : List UInt8} (h : Carries p c payload)
    (t : TopicTable) :
    (deliverPdu t (encodeBlocks c)).1 = dataOf (c.filter fun e => t.takes e.1) :=
  deliverTopics_encode h.1.counted (length_le_encodeBlocks fun e he => (h.1.counted e he).1) t

theorem mem_submitted {topic : Id} {item : DataItem} {calls : List Call}
    (h : item ∈ submitted topic calls) : Call.sendDataItem topic item ∈ calls := by
  induction calls with
  | nil => cases h
  | cons call calls ih =>
    cases call with
    | sendDataItem t i =>
      simp only [submitted] at h
      split_ifs at h with ht
      · subst ht
        rcases List.mem_cons.mp h with rfl | h
        · exact List.mem_cons_self
        · exact List.mem_cons_of_mem _ (ih h)
      · exact List.mem_cons_of_mem _ (ih h)
    | timerExpired => exact List.mem_cons_of_mem _ (ih h)

/-- The receiver accepts the payload and delivers the items of the topics that it takes, so all of
them if it admits the topics of the table. -/
def Delivered (p : Profile) (table : List Id) (c : Contents) (payload : List UInt8) : Prop :=
  ∃ psn topicBlocks, receiveBundle payload = .data p.profileId psn topicBlocks ∧
    (∀ t : TopicTable,
      (deliverPdu t topicBlocks).1 = dataOf (c.filter fun e => t.takes e.1)) ∧
    ∀ t : TopicTable, t.Admits table → (deliverPdu t topicBlocks).1 = dataOf c

/-- Every item handed in is in one payload or still held, in order; every payload is accepted and
delivered as it was put together, one block for a topic; and with an aggregation time limit a
timer is set while items are held, whose expiration sends them. -/
theorem payload_round_trip {p : Profile} {table : List Id} {calls : List Call}
    {s : PayloadAggregator} (hknown : ∀ call ∈ calls, call.Known table)
    (hrun : run (step p table) {} calls = .ok s) :
    (∃ cs : List Contents,
      (∀ topic, cs.flatMap (itemsOf topic) ++ s.held topic = submitted topic calls) ∧
      (∀ c ∈ cs, (c.map Prod.fst).Nodup) ∧ List.Forall₂ (Delivered p table) cs s.sent) ∧
    (0 < p.aggregationTimeLimit → (∃ topic, s.held topic ≠ []) → s.timer = some s.seqCtr) ∧
    ∀ topic, (s.timerExpired p s.seqCtr).held topic = [] := by
  obtain ⟨hconserved, htimed⟩ := run_conserved hknown hrun
  obtain ⟨cs, hcs, hitems⟩ := hconserved.contents
  have hproper : ∀ c ∈ cs, ∃ payload, Carries p c payload := by
    intro c hc
    obtain ⟨i, hi, rfl⟩ := List.getElem_of_mem hc
    exact ⟨_, hcs.get hi (by rwa [← hcs.length_eq])⟩
  have htopics : ∀ c ∈ cs, ∀ e ∈ c, 0 < e.2.length → e.1 ∈ table := by
    intro c hc e he hpos
    obtain ⟨item, hitem⟩ := List.exists_mem_of_length_pos hpos
    have hof : item ∈ itemsOf e.1 c :=
      List.mem_flatMap.mpr ⟨e, he, by rw [if_pos rfl]; exact hitem⟩
    have hsubmitted : item ∈ submitted e.1 calls := by
      rw [← hitems e.1]
      exact List.mem_append_left _ (List.mem_flatMap.mpr ⟨c, hc, hof⟩)
    exact hknown _ (mem_submitted hsubmitted)
  have hdelivered : ∀ c payload, (c ∈ cs ∧ Carries p c payload) → Delivered p table c payload := by
    rintro c payload ⟨hc, hcarries⟩
    obtain ⟨psn, hreceive⟩ := receiveBundle_of hcarries
    refine ⟨psn, _, hreceive, deliverPdu_of hcarries, ?_⟩
    intro t ht
    have hall : (c.filter fun e => t.takes e.1) = c := List.filter_eq_self.mpr fun e he =>
      ht _ (htopics c hc e he (hcarries.1.counted e he).1)
    rw [deliverPdu_of hcarries, hall]
  have hsent := (List.forall₂_and_left _ _).mpr ⟨fun c hc => hc, hcs⟩
  refine ⟨⟨cs, hitems, ?_, hsent.imp hdelivered⟩, ?_, ?_⟩
  · intro c hc
    obtain ⟨payload, hcarries⟩ := hproper c hc
    exact (List.pairwise_map.mpr hcarries.1.distinct).imp ne_of_lt
  · rintro hpos ⟨topic, hheld⟩
    exact (htimed hpos).resolve_right fun hnone => hheld (hnone.2 topic)
  · intro topic
    have hclear : Conserved p calls s.clearTimer := hconserved.congr rfl rfl rfl rfl
    rw [PayloadAggregator.timerExpired, if_neg (not_not.mpr rfl)]
    exact hclear.sendPayload.2.1 topic

/-- An item of topic 7 and then two of topic 3, with a limit of three bytes. -/
def threeItems : List Call :=
  [.sendDataItem 7 ⟨[1, 2], by decide⟩, .sendDataItem 3 ⟨[], by decide⟩,
    .sendDataItem 3 ⟨[5, 6], by decide⟩]

def threeBytes : Profile :=
  { profileId := 1, expiration := 60, retransmissionLimit := 2, aggregationSizeLimit := 3,
    aggregationTimeLimit := 10 }

theorem payload_round_trip_three : ∃ s, run (step threeBytes [3, 7]) {} threeItems = .ok s ∧
    s.sent = [[0, 1, 1, 3, 2, 0, 2, 5, 6, 7, 1, 2, 1, 2]] ∧
    ∃ cs, List.Forall₂ (Delivered threeBytes [3, 7]) cs s.sent := by
  have hrun : ∃ s, run (step threeBytes [3, 7]) {} threeItems = .ok s ∧
      s.sent = [[0, 1, 1, 3, 2, 0, 2, 5, 6, 7, 1, 2, 1, 2]] := by decide +kernel
  obtain ⟨s, hs, hsent⟩ := hrun
  obtain ⟨⟨cs, -, -, hdelivered⟩, -, -⟩ := payload_round_trip (by decide +kernel) hs
  exact ⟨s, hs, hsent, cs, hdelivered⟩

/-- Without a time limit, an item that is below the size limit stays where it is. -/
theorem item_not_sent : ∃ s, run (step { threeBytes with aggregationTimeLimit := 0 } [3, 7]) {}
      [.sendDataItem 7 ⟨[1, 2], by decide⟩] = .ok s ∧
    s.sent = [] ∧ s.held 7 = [⟨[1, 2], by decide⟩] := by
  decide +kernel

end Receiver

end Dtnme.Dtpc
