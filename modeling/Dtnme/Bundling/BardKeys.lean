import Dtnme.Bundling.Bard

/-! # Keys of quotas

A quota is stored under a key made of the text of a command, and is looked up under a key made of an
endpoint id. A record keeps the node as a text and as a number and makes its own key from one of them,
again when it comes back from the data store.
-/

namespace Dtnme.Bundling.Bard
open Library

/-- The value of the number at the front of a text. -/
def strtoull (base : ℕ) (s : List Char) : ℕ := (Strtoull.strtoull Char.toNat base s).1

/-! ## Records -/

/-- `make_key` of a number. -/
def makeKeyNumber (quotaType : QuotaType) (scheme : NamingScheme) (nodeNumber : ℕ) : String :=
  let srcDst := if quotaType = .src then "src" else "dst"
  let schemeStr := match scheme with
    | .undefined => "unk"
    | .ipn => "ipn"
    | .dtn => "dtn"
    | .imc => "imc"
  let number := (toString nodeNumber).toList.leftpad 20 ' '
  String.ofList (((srcDst ++ "_" ++ schemeStr ++ "_").toList ++ number).take 255)

/-- The elements of a record that its key is made of. -/
structure Node where
  quotaType : QuotaType
  namingScheme : NamingScheme
  nodeNumber : ℕ
  nodename : String
  deriving DecidableEq, Repr

/-- The record for a text. -/
def ofNodename (quotaType : QuotaType) (scheme : NamingScheme) (nodename : String) : Node :=
  ⟨quotaType, scheme, strtoull 10 (cString nodename), nodename⟩

def endpointToKeyComponents (eid : Endpoint) : NamingScheme × String :=
  match eid.scheme with
  | .ipn => (.ipn, toString eid.nodeNum)
  | .dtn => (.dtn, eid.ssp)
  | .imc => (.imc, toString eid.nodeNum)
  | .undefined => (.undefined, "")

/-- The record for an endpoint that has none. -/
def ofEndpoint (quotaType : QuotaType) (eid : Endpoint) : Node :=
  ofNodename quotaType (endpointToKeyComponents eid).1 (endpointToKeyComponents eid).2

def durableKey (u : Node) : String :=
  if u.namingScheme = .dtn then makeKey u.quotaType u.namingScheme u.nodename
  else makeKeyNumber u.quotaType u.namingScheme u.nodeNumber

/-! ## The data store -/

def quotaTypeToInt : QuotaType → ℕ
  | .undefined => 0
  | .dst => 1
  | .src => 2

def intToQuotaType (n : ℕ) : QuotaType :=
  if n = quotaTypeToInt .dst then .dst else if n = quotaTypeToInt .src then .src else .undefined

def namingSchemeToInt : NamingScheme → ℕ
  | .undefined => 0
  | .ipn => 1
  | .dtn => 2
  | .imc => 3

def intToNamingScheme (n : ℕ) : NamingScheme :=
  if n = namingSchemeToInt .ipn then .ipn
  else if n = namingSchemeToInt .dtn then .dtn
  else if n = namingSchemeToInt .imc then .imc
  else .undefined

/-- What is stored of a record, and whether it is. -/
structure Record extends Node where
  quota : Quota := {}
  quotaInDatastore : Bool := false
  deriving DecidableEq, Repr

/-- What `serialize` writes of these elements. -/
structure StoredNode where
  key : String
  quotaType : ℕ
  namingScheme : ℕ
  nodeNumber : ℕ
  nodename : String
  quota : Quota
  deriving DecidableEq, Repr

def serializeNode (u : Record) : StoredNode :=
  ⟨durableKey u.toNode, quotaTypeToInt u.quotaType, namingSchemeToInt u.namingScheme, u.nodeNumber,
    u.nodename, u.quota⟩

/-- The key that was stored is made anew. -/
def unmarshalNode (d : StoredNode) : Record :=
  { quotaType := intToQuotaType d.quotaType
    namingScheme := intToNamingScheme d.namingScheme
    nodeNumber := d.nodeNumber
    nodename := d.nodename
    quota := d.quota
    quotaInDatastore := true }

/-- `add` of the store leaves what it has under the key. -/
def storeAdd (store : OrdMap String StoredNode) (u : Record) : OrdMap String StoredNode :=
  if (store.find? (durableKey u.toNode)).isSome then store
  else store.insert (durableKey u.toNode) (serializeNode u)

/-- `update` of the store replaces what it has under the key, if it has something. -/
def storeUpdate (store : OrdMap String StoredNode) (u : Record) : OrdMap String StoredNode :=
  if (store.find? (durableKey u.toNode)).isSome then store.insert (durableKey u.toNode) (serializeNode u)
  else store

/-- The record is marked as stored whether it is or not. -/
def updateDatastore (store : OrdMap String StoredNode) (u : Record) :
    OrdMap String StoredNode × Record :=
  (if u.quotaInDatastore then storeUpdate store u else storeAdd store u,
    { u with quotaInDatastore := true })

/-- A quota that the startup configuration has is kept, with the values of the stored one. -/
def loadNode (quotaMap : OrdMap String Record) (d : StoredNode) :
    Except Fault (OrdMap String Record) :=
  let u := unmarshalNode d
  match quotaMap.find? (durableKey u.toNode) with
  | some v => do
    require (v.quotaInDatastore = false)
    pure (quotaMap.insert (durableKey u.toNode) { v with quota := u.quota, quotaInDatastore := true })
  | none => pure (quotaMap.insert (durableKey u.toNode) u)

/-- The records of `load_saved_quotas`. -/
def loadSavedNodes (quotaMap : OrdMap String Record) (store : OrdMap String StoredNode) :
    Except Fault (OrdMap String Record) :=
  store.entries.foldlM (fun quotaMap p => loadNode quotaMap p.2) quotaMap

/-! ## Which node a quota is for -/

/-- The node of an endpoint: a number of its scheme, or a name. -/
inductive Owner
  | number (scheme : NamingScheme) (n : ℕ)
  | name (scheme : NamingScheme) (ssp : String)
  deriving DecidableEq, Repr

def Endpoint.owner (eid : Endpoint) : Owner :=
  match eid.scheme with
  | .ipn => .number .ipn eid.nodeNum
  | .imc => .number .imc eid.nodeNum
  | s => .name s eid.ssp

/-- The node a command means. -/
def ownerOf (scheme : NamingScheme) (nodename : String) : Owner :=
  match scheme with
  | .ipn => .number .ipn (strtoull 0 (cString nodename))
  | .imc => .number .imc (strtoull 0 (cString nodename))
  | s => .name s nodename

/-- The characters of a URI are neither blanks nor NULs. -/
def UriText (s : String) : Prop := ' ' ∉ s.toList ∧ '\x00' ∉ s.toList

/-- The endpoints there can be. -/
def Endpoint.Valid (eid : Endpoint) : Prop := eid.nodeNum < 2 ^ 64 ∧ UriText eid.ssp

/-- The endpoints of the schemes that have quotas. -/
def Endpoint.Known (eid : Endpoint) : Prop := eid.Valid ∧ eid.scheme ≠ .undefined

/-- A record that may be found under the key of a quota when the command comes: of a text, of an
endpoint, or one that came out of the data store. -/
def IsRecord (among : Endpoint → Prop) (quotaType : QuotaType) (key : String) (u : Node) : Prop :=
  (∃ scheme nodename, makeKey quotaType scheme nodename = key ∧
    u = ofNodename quotaType scheme nodename) ∨
  (∃ eid, among eid ∧ makeBardNodeStorageUsageKey quotaType eid = key ∧ u = ofEndpoint quotaType eid) ∨
  durableKey u = key

/-- A store has its records under their own keys. -/
def Keyed (store : OrdMap String StoredNode) : Prop :=
  ∀ p ∈ store.entries, p.1 = durableKey (unmarshalNode p.2).toNode

/-- The store has the record afterwards. -/
def StoreTakes (store : OrdMap String StoredNode) (u : Record) : Prop :=
  match store.find? (durableKey u.toNode) with
  | none => u.quotaInDatastore = false
  | some d => u.quotaInDatastore = true ∨ unmarshalNode d = { u with quotaInDatastore := true }

instance (store : OrdMap String StoredNode) (u : Record) : Decidable (StoreTakes store u) := by
  unfold StoreTakes
  split <;> infer_instance

/-- A loaded record, or the one of the startup configuration with its values. -/
def loadedOnto (v : Option Record) (u : Record) : Record :=
  { v.getD u with quota := u.quota, quotaInDatastore := true }

/-- A quota with the record `u` applies to the node it was configured for. -/
structure Applies (among : Endpoint → Prop) (quotaType : QuotaType) (scheme : NamingScheme)
    (nodename : String) (u : Record) (store : OrdMap String StoredNode) : Prop where
  key_iff : ∀ eid, among eid →
    (makeBardNodeStorageUsageKey quotaType eid = makeKey quotaType scheme nodename ↔
      eid.owner = ownerOf scheme nodename)
  durable : durableKey u.toNode = makeKey quotaType scheme nodename
  reloaded : ∀ quotaMap : OrdMap String Record,
    (∀ p ∈ quotaMap.entries, p.2.quotaInDatastore = false) →
    ∃ m, loadSavedNodes quotaMap (updateDatastore store u).1 = .ok m ∧
      m.find? (makeKey quotaType scheme nodename) =
        some (loadedOnto (quotaMap.find? (makeKey quotaType scheme nodename)) u)
  distinct : ∀ quotaType' scheme' nodename', validQuota quotaType' scheme' nodename' = true →
    (∃ eid, among eid ∧ eid.owner = ownerOf scheme' nodename') →
    (quotaType', ownerOf scheme' nodename') ≠ (quotaType, ownerOf scheme nodename) →
    makeKey quotaType' scheme' nodename' ≠ makeKey quotaType scheme nodename

/-- The text of a number as `%20llu` could have written it. -/
def SpelledNumber (nodename : String) : Prop :=
  ∃ k n, n < 2 ^ 64 ∧ k + (toString n).length ≤ 20 ∧
    cString nodename = List.replicate k ' ' ++ (toString n).toList

/-- A name that is not the name of an endpoint, and not in the first 247 columns of a key either: a
blank stands in it before something else, or in a column from 21 on. -/
def Unwritten (nodename : String) : Prop :=
  ∃ u w, cString nodename = u ++ ' ' :: w ∧ ' ' ∉ u ∧ u.length < 247 ∧
    (20 < (cString nodename).length ∨ ∃ c ∈ w, c ≠ ' ')

/-- How a command has to spell its node. -/
def Spelled (scheme : NamingScheme) (nodename : String) : Prop :=
  match scheme with
  | .ipn => SpelledNumber nodename
  | .imc => SpelledNumber nodename
  | _ => UriText nodename ∧ nodename.length < 247 ∨ Unwritten nodename

/-! ## The parts of a key -/

def keyFront (quotaType : QuotaType) (scheme : NamingScheme) : List Char :=
  ((if quotaType = .src then "src" else "dst") ++ "_" ++ (match scheme with
    | .undefined => "unk"
    | .ipn => "ipn"
    | .dtn => "dtn"
    | .imc => "imc") ++ "_").toList

/-- A name in its columns. -/
def keyName (scheme : NamingScheme) (name : List Char) : List Char :=
  (if scheme = .dtn then name.rightpad 20 ' ' else name.leftpad 20 ' ').take 247

theorem length_keyFront (quotaType : QuotaType) (scheme : NamingScheme) :
    (keyFront quotaType scheme).length = 8 := by
  cases quotaType <;> cases scheme <;> decide

theorem keyFront_inj {quotaType quotaType' : QuotaType} {scheme scheme' : NamingScheme}
    (h : keyFront quotaType scheme = keyFront quotaType' scheme') :
    scheme = scheme' ∧ (quotaType = .src ↔ quotaType' = .src) := by
  revert h
  cases quotaType <;> cases quotaType' <;> cases scheme <;> cases scheme' <;> decide

theorem makeKey_toList (quotaType : QuotaType) (scheme : NamingScheme) (nodename : String) :
    (makeKey quotaType scheme nodename).toList =
      keyFront quotaType scheme ++ keyName scheme (cString nodename) := by
  have htake (l : List Char) : (keyFront quotaType scheme ++ l).take 255 =
      keyFront quotaType scheme ++ l.take 247 := by
    rw [List.take_append, List.take_of_length_le (by rw [length_keyFront]; decide), length_keyFront]
  rw [keyName, ← htake]
  exact String.toList_ofList

theorem makeKey_eq_iff (quotaType quotaType' : QuotaType) (scheme scheme' : NamingScheme)
    (nodename nodename' : String) :
    makeKey quotaType scheme nodename = makeKey quotaType' scheme' nodename' ↔
      keyFront quotaType scheme = keyFront quotaType' scheme' ∧
        keyName scheme (cString nodename) = keyName scheme' (cString nodename') := by
  rw [← String.toList_inj, makeKey_toList, makeKey_toList]
  constructor
  · intro h
    exact List.append_inj h (by rw [length_keyFront, length_keyFront])
  · rintro ⟨hfront, hname⟩
    rw [hfront, hname]

theorem makeKey_eq_iff_name {quotaType : QuotaType} {scheme : NamingScheme} {nodename nodename' : String} :
    makeKey quotaType scheme nodename = makeKey quotaType scheme nodename' ↔
      keyName scheme (cString nodename) = keyName scheme (cString nodename') := by
  simp [makeKey_eq_iff]

/-! ## Numbers -/

/-- The digits of a number. -/
def digits (n : ℕ) : List Char := (toString n).toList

theorem digits_eq (n : ℕ) : digits n = Nat.toDigits 10 n := by
  simp [digits, Nat.toString_eq_repr]

theorem isDigit_digits {n : ℕ} {c : Char} (h : c ∈ digits n) : c.isDigit = true := by
  rw [digits_eq] at h
  exact Nat.isDigit_of_mem_toDigits (by decide) (by decide) h

theorem isDigit_iff {c : Char} : c.isDigit = true ↔ 48 ≤ c.toNat ∧ c.toNat ≤ 57 :=
  Char.isDigit_iff_toNat

theorem takeWhile_digits (n : ℕ) :
    (digits n).takeWhile (Strtoull.isDigitOf Char.toNat 10) = digits n := by
  refine List.takeWhile_eq_self_iff.mpr (fun c hc => ?_)
  have hdigit := isDigit_iff.mp (isDigit_digits hc)
  rw [Strtoull.isDigitOf_ten, Bool.and_eq_true, decide_eq_true_eq, decide_eq_true_eq]
  exact hdigit

theorem numeral_digits (n : ℕ) : Strtoull.numeral Char.toNat 10 (digits n) = n := by
  have hfold (l : List Char) (h : ∀ c ∈ l, c.isDigit = true) (v : ℕ) :
      l.foldl (fun v c => v * 10 + Strtoull.digitValue c.toNat) v = Nat.ofDigitChars 10 l v := by
    induction l generalizing v with
    | nil => simp
    | cons c l ih =>
      have hdigit := isDigit_iff.mp (h c (List.mem_cons_self ..))
      rw [List.foldl_cons, Nat.ofDigitChars_cons, ih (fun c hc => h c (List.mem_cons_of_mem _ hc)),
        Strtoull.digitValue, if_pos hdigit, Nat.mul_comm]
      rfl
  rw [Strtoull.numeral, hfold _ (fun c hc => isDigit_digits hc), digits_eq,
    Nat.ofDigitChars_ten_toDigits]

theorem magnitude_ten_digits (n : ℕ) :
    Strtoull.magnitude Char.toNat 10 (digits n) = (n, (digits n).length) := by
  rw [Strtoull.magnitude_ten, Strtoull.scan, takeWhile_digits, numeral_digits]

/-- Only the number 0 begins with a 0. -/
theorem digits_cons_zero {n : ℕ} {l : List Char} (h : digits n = '0' :: l) : n = 0 := by
  induction n using Nat.strongRecOn generalizing l with
  | ind n ih =>
    by_cases hlt : n < 10
    · rw [digits_eq, Nat.toDigits_of_lt_base hlt] at h
      have hchar := (List.cons.inj h).1
      interval_cases n <;> simp_all [Nat.digitChar]
    · rw [digits_eq, Nat.toDigits_of_base_le (by decide) (by omega), ← digits_eq] at h
      cases hrest : digits (n / 10) with
      | nil => rw [digits_eq] at hrest; exact absurd hrest Nat.toDigits_ne_nil
      | cons c rest =>
        rw [hrest, List.cons_append] at h
        obtain ⟨rfl, -⟩ := List.cons.inj h
        have hzero := ih (n / 10) (by omega) hrest
        omega

theorem magnitude_zero_digits (n : ℕ) :
    Strtoull.magnitude Char.toNat 0 (digits n) = (n, (digits n).length) := by
  by_cases hn : n = 0
  · subst hn
    decide +kernel
  · have hradix : Strtoull.radix Char.toNat (digits n) = (10, 0) := by
      cases hdigits : digits n with
      | nil => rfl
      | cons c l =>
        have hc : c.toNat ≠ 48 := by
          intro hc
          obtain rfl : c = '0' := Char.toNat_inj.mp hc
          exact hn (digits_cons_zero hdigits)
        unfold Strtoull.radix
        split
        next h => exact absurd (List.cons.inj h).1 hc
        next h => exact absurd (List.cons.inj h).1 hc
        · rfl
    have hten := magnitude_ten_digits n
    rw [Strtoull.magnitude_ten] at hten
    rw [Strtoull.magnitude, if_pos rfl, hradix]
    simp [hten]

/-- Blanks in front of digits do not matter, and digits of a number do not give another base. -/
theorem strtoull_digits {base : ℕ} (hbase : base = 10 ∨ base = 0) {n : ℕ} (hn : n < 2 ^ 64) (k : ℕ) :
    strtoull base (List.replicate k ' ' ++ digits n) = n := by
  have hmagnitude : Strtoull.magnitude Char.toNat base (digits n) = (n, (digits n).length) := by
    rcases hbase with rfl | rfl
    · exact magnitude_ten_digits n
    · exact magnitude_zero_digits n
  cases hdigits : digits n with
  | nil => rw [digits_eq] at hdigits; exact absurd hdigits Nat.toDigits_ne_nil
  | cons c rest =>
    have hc := isDigit_iff.mp (isDigit_digits (n := n) (hdigits ▸ List.mem_cons_self ..))
    have hspace : Strtoull.isSpace c.toNat = false := by
      simp only [Strtoull.isSpace, Bool.or_eq_false_iff, Bool.and_eq_false_iff, decide_eq_false_iff_not]
      omega
    rw [hdigits] at hmagnitude
    rw [strtoull, Strtoull.strtoull_blanks (c := c) (by simp [Strtoull.isSpace]) rfl hspace (by omega)
      (by simp [hmagnitude]) (by rw [hmagnitude]; exact hn), hmagnitude]

theorem length_digits_le {n : ℕ} (h : n < 2 ^ 64) : (digits n).length ≤ 20 := by
  rw [digits_eq, Nat.length_toDigits_le_iff (by decide) (by decide)]
  exact lt_trans h (by norm_num)

theorem blank_notMem_digits (n : ℕ) : ' ' ∉ digits n := fun h => absurd (isDigit_digits h) (by decide)

theorem digits_inj {m n : ℕ} (h : digits m = digits n) : m = n := by
  rw [← numeral_digits m, h, numeral_digits]

/-! ## Names in their columns -/

theorem take_leftpad {l : List Char} (h : l.length ≤ 20) :
    (l.leftpad 20 ' ').take 247 = List.replicate (20 - l.length) ' ' ++ l := by
  rw [List.leftpad, List.take_of_length_le (by simp; omega)]

/-- What is written like a number is the number behind blanks. -/
theorem keyName_number_iff {scheme : NamingScheme} (hscheme : scheme ≠ .dtn) {l : List Char} {n : ℕ}
    (hn : n < 2 ^ 64) :
    keyName scheme l = keyName scheme (digits n) ↔
      ∃ k, k + (digits n).length ≤ 20 ∧ l = List.replicate k ' ' ++ digits n := by
  have hlen := length_digits_le hn
  rw [keyName, keyName, if_neg hscheme, if_neg hscheme, take_leftpad hlen]
  constructor
  · intro h
    have hl : l.length ≤ 20 := by
      have hlength := congrArg List.length h
      simp [List.leftpad] at hlength
      omega
    rw [take_leftpad hl] at h
    rcases Nat.le_total (20 - l.length) (20 - (digits n).length) with hle | hle
    · obtain ⟨k, hk⟩ := Nat.exists_eq_add_of_le hle
      rw [hk, ← List.replicate_append_replicate, List.append_assoc] at h
      exact ⟨k, by omega, List.append_cancel_left h⟩
    · obtain ⟨k, hk⟩ := Nat.exists_eq_add_of_le hle
      rw [hk, ← List.replicate_append_replicate, List.append_assoc] at h
      have hdigits := List.append_cancel_left h
      cases k with
      | zero => exact ⟨0, by simpa using hlen, by simpa using hdigits⟩
      | succ k =>
        exact absurd (hdigits ▸ List.mem_append_left _ (by simp)) (blank_notMem_digits n)
  · rintro ⟨k, hk, rfl⟩
    rw [take_leftpad (by simpa using hk), ← List.append_assoc, List.replicate_append_replicate]
    congr 2
    simp
    omega

theorem cString_eq {s : String} (h : '\x00' ∉ s.toList) : cString s = s.toList := by
  rw [cString, List.takeWhile_eq_self_iff]
  intro c hc
  have hne : c ≠ '\x00' := by rintro rfl; exact h hc
  simpa using hne

theorem cString_toString (n : ℕ) : cString (toString n) = digits n := by
  rw [cString_eq]
  · rfl
  · exact fun h => absurd (isDigit_digits (n := n) h) (by decide)

/-- The blanks behind a name in its columns. -/
theorem keyName_dtn (l : List Char) :
    keyName .dtn l = (l ++ List.replicate (20 - l.length) ' ').take 247 := by
  simp [keyName, List.rightpad]

/-- The part of a name in front of its first blank, as a key has it. -/
theorem takeWhile_keyName (l : List Char) :
    (keyName .dtn l).takeWhile (· ≠ ' ') = (l.takeWhile (· ≠ ' ')).take 247 := by
  have hblanks (n : ℕ) : (l ++ List.replicate n ' ').takeWhile (· ≠ ' ') =
      l.takeWhile (· ≠ ' ') := by
    induction l with
    | nil => cases n <;> simp [List.replicate_succ]
    | cons c l ih =>
      simp only [List.cons_append, List.takeWhile_cons]
      rw [ih]
  rw [keyName_dtn, ← List.take_takeWhile, hblanks]

theorem takeWhile_of_notMem {l : List Char} (h : ' ' ∉ l) : l.takeWhile (· ≠ ' ') = l := by
  rw [List.takeWhile_eq_self_iff]
  intro c hc
  have hne : c ≠ ' ' := by rintro rfl; exact h hc
  simpa using hne

/-- A short text without blanks is known from its columns. -/
theorem keyName_dtn_inj {l m : List Char} (hl : ' ' ∉ l) (hm : ' ' ∉ m) (hlen : l.length < 247)
    (h : keyName .dtn m = keyName .dtn l) : m = l := by
  have hfront := congrArg (List.takeWhile (· ≠ ' ')) h
  rw [takeWhile_keyName, takeWhile_keyName, takeWhile_of_notMem hl, takeWhile_of_notMem hm,
    List.take_of_length_le (l := l) (by omega)] at hfront
  have hlength := congrArg List.length hfront
  rw [List.length_take] at hlength
  rwa [List.take_of_length_le (by omega)] at hfront

theorem length_keyName_dtn (l : List Char) :
    (keyName .dtn l).length = min 247 (max 20 l.length) := by
  rw [keyName_dtn, List.length_take, List.length_append, List.length_replicate]
  omega

/-- A name is not in the columns of a text if a blank stands in it before something else or in a column
from 21 on. -/
theorem keyName_dtn_blank {l u w m : List Char} (hu : ' ' ∉ u) (hl : l = u ++ ' ' :: w) (hm : ' ' ∉ m)
    (h : keyName .dtn m = keyName .dtn l) :
    ¬ (u.length < 247 ∧ (20 < l.length ∨ ∃ c ∈ w, c ≠ ' ')) := by
  rintro ⟨hshort, hrest⟩
  have hlen : l.length = u.length + (w.length + 1) := by simp [hl]
  have hfront := congrArg (List.takeWhile (· ≠ ' ')) h
  have hblank : l.takeWhile (· ≠ ' ') = u := by
    rw [hl, List.takeWhile_append_of_pos, List.takeWhile_cons_of_neg (by simp), List.append_nil]
    intro c hc
    have hne : c ≠ ' ' := by rintro rfl; exact hu hc
    simpa using hne
  have htake : u.take 247 = u := List.take_of_length_le (by omega)
  rw [takeWhile_keyName, takeWhile_keyName, takeWhile_of_notMem hm, hblank, htake] at hfront
  have hlength := congrArg List.length hfront
  rw [List.length_take] at hlength
  rw [List.take_of_length_le (by omega)] at hfront
  subst hfront
  have hcolumns := congrArg List.length h
  rw [length_keyName_dtn, length_keyName_dtn] at hcolumns
  have hl20 : l.length ≤ 20 := by omega
  rw [keyName_dtn, keyName_dtn, List.take_of_length_le (by simp; omega),
    List.take_of_length_le (by simp; omega), hl, List.append_assoc] at h
  have hblanks := List.append_cancel_left h
  rcases hrest with hlong | ⟨c, hc, hne⟩
  · omega
  · have hmem : c ∈ List.replicate (20 - m.length) ' ' := by
      rw [hblanks]
      simp [hc]
    exact hne (List.eq_of_mem_replicate hmem)

/-- Any other name with a blank is written like its part in front of the blank. -/
theorem exists_keyName_dtn {l u w : List Char} (hl : l = u ++ ' ' :: w)
    (h : ¬ (u.length < 247 ∧ (20 < l.length ∨ ∃ c ∈ w, c ≠ ' '))) :
    ∃ m, m <+: u ∧ keyName .dtn m = keyName .dtn l := by
  have hlen : l.length = u.length + (w.length + 1) := by simp [hl]
  by_cases hshort : u.length < 247
  · push Not at h
    obtain ⟨hl20, hw⟩ := h hshort
    have hreplicate : ' ' :: w = List.replicate (w.length + 1) ' ' :=
      List.eq_replicate_of_mem (by simpa using hw)
    refine ⟨u, List.prefix_rfl, ?_⟩
    rw [keyName_dtn, keyName_dtn, hlen, hl, hreplicate, List.append_assoc,
      List.replicate_append_replicate]
    congr 3
    omega
  · refine ⟨u.take 247, List.take_prefix 247 u, ?_⟩
    rw [keyName_dtn, keyName_dtn, hl, List.append_assoc,
      List.take_append_of_le_length (by rw [List.length_take]; omega),
      List.take_append_of_le_length (by omega), List.take_take, min_self]

/-! ## The data store -/

theorem unmarshal_serialize (u : Record) :
    unmarshalNode (serializeNode u) = { u with quotaInDatastore := true } := by
  obtain ⟨⟨quotaType, scheme, nodeNumber, nodename⟩, quota, flag⟩ := u
  cases quotaType <;> cases scheme <;> rfl

theorem keyed_empty : Keyed .empty := by simp [Keyed, OrdMap.empty]

theorem Keyed.insert {store : OrdMap String StoredNode} (h : Keyed store) (u : Record) :
    Keyed (store.insert (durableKey u.toNode) (serializeNode u)) := by
  intro p hp
  rcases OrdMap.mem_put hp with rfl | hp
  · rw [unmarshal_serialize]
  · exact h p hp

theorem Keyed.updateDatastore {store : OrdMap String StoredNode} (h : Keyed store) (u : Record) :
    Keyed (updateDatastore store u).1 := by
  unfold Bard.updateDatastore storeUpdate storeAdd
  split_ifs
  · exact h.insert u
  · exact h
  · exact h
  · exact h.insert u

/-- What the store has under the key of a record after the record was handed to it. -/
theorem find?_updateDatastore (store : OrdMap String StoredNode) (u : Record) :
    ((updateDatastore store u).1.find? (durableKey u.toNode)).map unmarshalNode =
        some { u with quotaInDatastore := true } ↔ StoreTakes store u := by
  unfold updateDatastore storeUpdate storeAdd StoreTakes
  cases hfind : store.find? (durableKey u.toNode) with
  | none =>
    cases hflag : u.quotaInDatastore with
    | false => simp [unmarshal_serialize]
    | true => simp [hfind]
  | some d =>
    cases hflag : u.quotaInDatastore with
    | false => simp [hfind]
    | true => simp [unmarshal_serialize]

theorem loadedOnto_stored (v : Option Record) (u : Record) :
    loadedOnto v { u with quotaInDatastore := true } = loadedOnto v u := by
  cases v <;> rfl

theorem loadedOnto_none {u : Record} (h : u.quotaInDatastore = true) : loadedOnto none u = u := by
  rw [loadedOnto, ← h]
  rfl

theorem loadNode_of (quotaMap : OrdMap String Record) (d : StoredNode) {v : Option Record}
    (hfind : quotaMap.find? (durableKey (unmarshalNode d).toNode) = v)
    (hfresh : ∀ w ∈ v, w.quotaInDatastore = false) :
    loadNode quotaMap d = .ok (quotaMap.insert (durableKey (unmarshalNode d).toNode)
      (loadedOnto v (unmarshalNode d))) := by
  unfold loadNode
  dsimp only
  rw [hfind]
  cases v with
  | none => rfl
  | some w =>
    dsimp only
    rw [require_of (hfresh w rfl)]
    rfl

/-- Records of the store are loaded once each, so that each finds the one of the startup configuration
as it was. -/
theorem loadEntries {entries : List (String × StoredNode)}
    (hkeyed : ∀ p ∈ entries, p.1 = durableKey (unmarshalNode p.2).toNode)
    (hsorted : entries.Pairwise (fun a b => a.1 < b.1)) : ∀ quotaMap : OrdMap String Record,
    (∀ p ∈ entries, ∀ v ∈ quotaMap.find? p.1, v.quotaInDatastore = false) →
    ∃ m, entries.foldlM (fun quotaMap p => loadNode quotaMap p.2) quotaMap = Except.ok m ∧
      (∀ p ∈ entries, m.find? p.1 =
        some (loadedOnto (quotaMap.find? p.1) (unmarshalNode p.2))) ∧
      ∀ key, (∀ p ∈ entries, p.1 ≠ key) → m.find? key = quotaMap.find? key := by
  induction entries with
  | nil => exact fun _ _ => ⟨_, rfl, by simp, fun _ _ => rfl⟩
  | cons p entries ih =>
    intro quotaMap hfresh
    obtain ⟨k, d⟩ := p
    rw [List.forall_mem_cons] at hkeyed hfresh
    obtain ⟨hk, hkeyed⟩ := hkeyed
    obtain ⟨hlt, hsorted⟩ := List.pairwise_cons.mp hsorted
    have hne : ∀ p ∈ entries, p.1 ≠ k := fun p hp => (hlt p hp).ne'
    have hload := loadNode_of quotaMap d rfl (by rw [← hk]; exact hfresh.1)
    rw [← hk] at hload
    set quotaMap' := quotaMap.insert k (loadedOnto (quotaMap.find? k) (unmarshalNode d))
    have hold : ∀ key, key ≠ k → quotaMap'.find? key = quotaMap.find? key := by
      intro key hkey
      rw [OrdMap.find?_insert, if_neg hkey]
    obtain ⟨m, hm, hloaded, hrest⟩ := ih hkeyed hsorted quotaMap' (fun p hp => by
      rw [hold p.1 (hne p hp)]
      exact hfresh.2 p hp)
    refine ⟨m, ?_, ?_, fun key hkey => ?_⟩
    · rw [List.foldlM_cons, hload]
      exact hm
    · rw [List.forall_mem_cons]
      constructor
      · rw [hrest k hne, OrdMap.find?_insert, if_pos rfl]
      · intro p hp
        rw [hloaded p hp, hold p.1 (hne p hp)]
    · rw [List.forall_mem_cons] at hkey
      rw [hrest key hkey.2, hold key (Ne.symm hkey.1)]

theorem find?_loadSavedNodes {store : OrdMap String StoredNode} (hstore : Keyed store)
    (quotaMap : OrdMap String Record)
    (hfresh : ∀ p ∈ quotaMap.entries, p.2.quotaInDatastore = false) :
    ∃ m, loadSavedNodes quotaMap store = .ok m ∧
      ∀ key, m.find? key = match (store.find? key).map unmarshalNode with
        | some u => some (loadedOnto (quotaMap.find? key) u)
        | none => quotaMap.find? key := by
  obtain ⟨m, hm, hloaded, hrest⟩ := loadEntries hstore store.sorted quotaMap
    (fun p _ v hv => hfresh (p.1, v) (OrdMap.find?_eq_some_iff.mp hv))
  refine ⟨m, hm, fun key => ?_⟩
  cases hfind : store.find? key with
  | some d => exact hloaded (key, d) (OrdMap.find?_eq_some_iff.mp hfind)
  | none =>
    refine hrest key (fun p hp hkey => ?_)
    exact OrdMap.find?_eq_none_iff.mp hfind p.2 (hkey ▸ hp)

/-- A record is found again under its own key after it was handed to the store exactly if the store
takes it. -/
theorem reloaded_iff {store : OrdMap String StoredNode} (hstore : Keyed store) (u : Record) :
    (∀ quotaMap : OrdMap String Record, (∀ p ∈ quotaMap.entries, p.2.quotaInDatastore = false) →
      ∃ m, loadSavedNodes quotaMap (updateDatastore store u).1 = .ok m ∧
        m.find? (durableKey u.toNode) =
          some (loadedOnto (quotaMap.find? (durableKey u.toNode)) u)) ↔ StoreTakes store u := by
  rw [← find?_updateDatastore]
  constructor
  · intro h
    obtain ⟨m, hm, hu⟩ := h .empty (by simp [OrdMap.empty])
    obtain ⟨m', hm', hfind⟩ := find?_loadSavedNodes (hstore.updateDatastore u) .empty
      (by simp [OrdMap.empty])
    obtain rfl : m = m' := Except.ok.inj (hm.symm.trans hm')
    rw [hfind, OrdMap.find?_empty] at hu
    cases hstored : ((updateDatastore store u).1.find? (durableKey u.toNode)).map unmarshalNode with
    | none =>
      rw [hstored] at hu
      cases hu
    | some v =>
      have hflag : v.quotaInDatastore = true := by
        obtain ⟨d, -, rfl⟩ := Option.map_eq_some_iff.mp hstored
        rfl
      rw [hstored, Option.some.injEq, loadedOnto_none hflag] at hu
      rw [hu]
      rfl
  · intro htakes quotaMap hfresh
    obtain ⟨m, hm, hfind⟩ := find?_loadSavedNodes (hstore.updateDatastore u) _ hfresh
    refine ⟨m, hm, ?_⟩
    rw [hfind, htakes]
    exact congrArg some (loadedOnto_stored _ u)

/-! ## Which quotas apply -/

theorem makeKeyNumber_eq {scheme : NamingScheme} (hscheme : scheme ≠ .dtn) (quotaType : QuotaType)
    (n : ℕ) : makeKeyNumber quotaType scheme n = makeKey quotaType scheme (toString n) := by
  unfold makeKeyNumber makeKey
  simp only [cString_toString, if_neg hscheme]
  rfl

theorem keyName_digits_inj {scheme : NamingScheme} (hscheme : scheme ≠ .dtn) {m n : ℕ}
    (hn : n < 2 ^ 64) (h : keyName scheme (digits m) = keyName scheme (digits n)) : m = n := by
  obtain ⟨k, -, hdigits⟩ := (keyName_number_iff hscheme hn).mp h
  cases k with
  | zero => exact digits_inj (by simpa using hdigits)
  | succ k => exact absurd (hdigits ▸ List.mem_append_left _ (by simp)) (blank_notMem_digits m)

/-- A number that is written like `n` is read as `n`. -/
theorem strtoull_of_keyName {scheme : NamingScheme} (hscheme : scheme ≠ .dtn)
    {base : ℕ} (hbase : base = 10 ∨ base = 0) {l : List Char} {n : ℕ} (hn : n < 2 ^ 64)
    (h : keyName scheme l = keyName scheme (digits n)) : strtoull base l = n := by
  obtain ⟨k, -, rfl⟩ := (keyName_number_iff hscheme hn).mp h
  exact strtoull_digits hbase hn k

theorem spelledNumber_iff {scheme : NamingScheme} (hscheme : scheme ≠ .dtn) (nodename : String) :
    SpelledNumber nodename ↔
      ∃ n, n < 2 ^ 64 ∧ keyName scheme (cString nodename) = keyName scheme (digits n) := by
  constructor
  · rintro ⟨k, n, hn, hk, h⟩
    exact ⟨n, hn, (keyName_number_iff hscheme hn).mpr ⟨k, hk, h⟩⟩
  · rintro ⟨n, hn, h⟩
    obtain ⟨k, hk, h⟩ := (keyName_number_iff hscheme hn).mp h
    exact ⟨k, n, hn, hk, h⟩

theorem strtoull_lt (base : ℕ) (l : List Char) : strtoull base l < 2 ^ 64 :=
  Strtoull.strtoull_lt base l

section

variable {among : Endpoint → Prop} {quotaType : QuotaType} {scheme : NamingScheme} {nodename : String}

/-- A text that is stored under the key of a quota has a record with that key. -/
theorem durableKey_ofNodename (h : scheme = .dtn ∨ SpelledNumber nodename) {scheme' : NamingScheme}
    {nodename' : String} (hkey : makeKey quotaType scheme' nodename' = makeKey quotaType scheme nodename) :
    durableKey (ofNodename quotaType scheme' nodename') = makeKey quotaType scheme nodename := by
  rw [← hkey]
  obtain ⟨hfront, hname⟩ := (makeKey_eq_iff ..).mp hkey
  obtain ⟨rfl, -⟩ := keyFront_inj hfront
  unfold durableKey ofNodename
  by_cases hdtn : scheme' = .dtn
  · rw [if_pos hdtn]
  · rw [if_neg hdtn, makeKeyNumber_eq hdtn, makeKey_eq_iff_name, cString_toString]
    obtain ⟨n, hn, hnumber⟩ := (spelledNumber_iff hdtn nodename).mp (h.resolve_left hdtn)
    rw [hnumber] at hname
    rw [strtoull_of_keyName hdtn (Or.inl rfl) hn hname, hname]

theorem durableKey_isRecord (h : scheme = .dtn ∨ SpelledNumber nodename)
    (hother : ∀ eid, among eid → eid.scheme = .undefined →
      makeBardNodeStorageUsageKey quotaType eid ≠ makeKey quotaType scheme nodename)
    {u : Node} (hu : IsRecord among quotaType (makeKey quotaType scheme nodename) u) :
    durableKey u = makeKey quotaType scheme nodename := by
  rcases hu with ⟨scheme', nodename', hkey, rfl⟩ | ⟨eid, heid, hkey, rfl⟩ | hkey
  · exact durableKey_ofNodename h hkey
  · have hother := hother eid heid
    unfold makeBardNodeStorageUsageKey at hkey hother
    unfold ofEndpoint endpointToKeyComponents
    cases hscheme : eid.scheme with
    | undefined =>
      rw [hscheme] at hkey hother
      exact absurd hkey (hother rfl)
    | ipn =>
      rw [hscheme] at hkey
      exact durableKey_ofNodename h hkey
    | dtn =>
      rw [hscheme] at hkey
      exact durableKey_ofNodename h hkey
    | imc =>
      rw [hscheme] at hkey
      exact durableKey_ofNodename h hkey
  · exact hkey

theorem makeKey_scheme_ne {scheme' : NamingScheme} (h : scheme' ≠ scheme) (nodename' : String) :
    makeKey quotaType scheme' nodename' ≠ makeKey quotaType scheme nodename :=
  fun hkey => h (keyFront_inj ((makeKey_eq_iff ..).mp hkey).1).1

/-- The key of an endpoint of the scheme of a number is the quota's exactly for that number. -/
theorem makeKey_number_iff (hdtn : scheme ≠ .dtn) (h : SpelledNumber nodename) (m : ℕ) :
    makeKey quotaType scheme (toString m) = makeKey quotaType scheme nodename ↔
      m = strtoull 0 (cString nodename) := by
  obtain ⟨n, hn, hnumber⟩ := (spelledNumber_iff hdtn nodename).mp h
  rw [makeKey_eq_iff_name, cString_toString, hnumber,
    strtoull_of_keyName hdtn (Or.inr rfl) hn hnumber]
  constructor
  · exact keyName_digits_inj hdtn hn
  · rintro rfl
    rfl

theorem key_iff_number (hscheme : scheme = .ipn ∨ scheme = .imc) (h : SpelledNumber nodename)
    (eid : Endpoint) :
    makeBardNodeStorageUsageKey quotaType eid = makeKey quotaType scheme nodename ↔
      eid.owner = ownerOf scheme nodename := by
  unfold makeBardNodeStorageUsageKey Endpoint.owner
  have hnumber {s : NamingScheme} (hs : s ≠ .dtn) :=
    @makeKey_number_iff quotaType s nodename hs h eid.nodeNum
  rcases hscheme with rfl | rfl
  · cases eid.scheme with
    | ipn => simpa [ownerOf] using hnumber (by decide)
    | undefined => simp [ownerOf, makeKey_scheme_ne]
    | dtn => simp [ownerOf, makeKey_scheme_ne]
    | imc => simp [ownerOf, makeKey_scheme_ne]
  · cases eid.scheme with
    | imc => simpa [ownerOf] using hnumber (by decide)
    | undefined => simp [ownerOf, makeKey_scheme_ne]
    | dtn => simp [ownerOf, makeKey_scheme_ne]
    | ipn => simp [ownerOf, makeKey_scheme_ne]

/-- The number a text is read as has its key only if the text is spelled like it. -/
theorem spelled_of_key (hdtn : scheme ≠ .dtn)
    (h : makeKey quotaType scheme (toString (strtoull 0 (cString nodename))) =
      makeKey quotaType scheme nodename) : SpelledNumber nodename := by
  rw [makeKey_eq_iff_name, cString_toString] at h
  exact (spelledNumber_iff hdtn nodename).mpr ⟨_, strtoull_lt _ _, h.symm⟩

/-- The key of an endpoint of a name is the quota's exactly for that name. -/
theorem key_iff_name (h : UriText nodename ∧ nodename.length < 247 ∨ Unwritten nodename)
    {ssp : String} (hssp : UriText ssp) :
    makeKey quotaType .dtn ssp = makeKey quotaType .dtn nodename ↔ ssp = nodename := by
  rw [makeKey_eq_iff_name, cString_eq hssp.2]
  constructor
  · intro hname
    rcases h with ⟨htext, hlen⟩ | ⟨u, w, hl, hu, hrest⟩
    · rw [cString_eq htext.2] at hname
      exact String.toList_inj.mp (keyName_dtn_inj htext.1 hssp.1 (by rwa [String.length_toList]) hname)
    · exact absurd hrest (keyName_dtn_blank hu hl hssp.1 hname)
  · rintro rfl
    rw [cString_eq hssp.2]

/-- A name whose key no other text has is short and a text, or is not written into its key. -/
theorem spelled_of_keys (h : ∀ ssp, UriText ssp →
    (makeKey quotaType .dtn ssp = makeKey quotaType .dtn nodename ↔ ssp = nodename)) :
    UriText nodename ∧ nodename.length < 247 ∨ Unwritten nodename := by
  have hkeys (l : List Char) (hblank : ' ' ∉ l) (hnul : '\x00' ∉ l)
      (hname : keyName .dtn l = keyName .dtn (cString nodename)) : nodename = String.ofList l := by
    have htext : UriText (String.ofList l) := by simpa [UriText] using ⟨hblank, hnul⟩
    refine ((h _ htext).mp ?_).symm
    rw [makeKey_eq_iff_name, cString_eq htext.2, String.toList_ofList, hname]
  have hnul : '\x00' ∉ cString nodename := fun hmem => by
    simpa using List.mem_takeWhile_imp hmem
  by_cases hblank : ' ' ∈ cString nodename
  · right
    obtain ⟨u, w, hl, hu⟩ := List.eq_append_cons_of_mem hblank
    by_contra hnot
    obtain ⟨m, hm, hname⟩ := exists_keyName_dtn hl (fun hrest => hnot ⟨u, w, hl, hu, hrest⟩)
    have hmnul : '\x00' ∉ m := fun hmem => hnul (hl ▸ List.mem_append_left _ (hm.subset hmem))
    have hmblank : ' ' ∉ m := fun hmem => hu (hm.subset hmem)
    have heq := hkeys m hmblank hmnul hname
    rw [heq, cString_eq (by rwa [String.toList_ofList]), String.toList_ofList] at hblank
    exact hmblank hblank
  · left
    have heq := hkeys _ hblank hnul rfl
    have hlist : nodename.toList = cString nodename := by
      rw [heq, String.toList_ofList, ← heq]
    refine ⟨⟨hlist ▸ hblank, hlist ▸ hnul⟩, ?_⟩
    by_contra hlong
    rw [← String.length_toList, hlist] at hlong
    have hname : keyName .dtn (cString nodename ++ ['x']) = keyName .dtn (cString nodename) := by
      rw [keyName_dtn, keyName_dtn, List.append_assoc, List.take_append_of_le_length (by omega),
        List.take_append_of_le_length (by omega)]
    have hlonger := hkeys (cString nodename ++ ['x']) (by simpa using hblank) (by simpa using hnul) hname
    have hlength := congrArg (fun s => s.toList.length) hlonger
    simp [hlist] at hlength

theorem quotaType_of_valid (h : validQuota quotaType scheme nodename = true) :
    quotaType = .dst ∨ quotaType = .src := by
  unfold validQuota at h
  simpa using (Bool.and_eq_true_iff.mp h).1

theorem scheme_of_valid (h : validQuota quotaType scheme nodename = true) : scheme ≠ .undefined := by
  rintro rfl
  simp [validQuota] at h

/-- Quotas of different nodes have different keys. -/
theorem makeKey_distinct (hvalid : validQuota quotaType scheme nodename = true)
    (hspelled : Spelled scheme nodename) {quotaType' : QuotaType} {scheme' : NamingScheme}
    {nodename' : String} (hvalid' : validQuota quotaType' scheme' nodename' = true)
    (htext : scheme' = .dtn → UriText nodename')
    (hne : (quotaType', ownerOf scheme' nodename') ≠ (quotaType, ownerOf scheme nodename)) :
    makeKey quotaType' scheme' nodename' ≠ makeKey quotaType scheme nodename := by
  intro hkey
  obtain ⟨hfront, hname⟩ := (makeKey_eq_iff ..).mp hkey
  obtain ⟨rfl, hsrc⟩ := keyFront_inj hfront
  obtain rfl : quotaType' = quotaType := by
    rcases quotaType_of_valid hvalid with rfl | rfl
    · exact (quotaType_of_valid hvalid').resolve_right (by simpa using hsrc)
    · exact hsrc.mpr rfl
  apply hne
  congr 1
  have hnumber (hdtn : scheme' ≠ .dtn) (h : SpelledNumber nodename) :
      strtoull 0 (cString nodename') = strtoull 0 (cString nodename) := by
    obtain ⟨n, hn, hnumber⟩ := (spelledNumber_iff hdtn nodename).mp h
    rw [strtoull_of_keyName hdtn (Or.inr rfl) hn hnumber,
      strtoull_of_keyName hdtn (Or.inr rfl) hn (hname.trans hnumber)]
  cases scheme' with
  | undefined => exact absurd rfl (scheme_of_valid hvalid)
  | ipn => exact congrArg (Owner.number .ipn) (hnumber (by decide) hspelled)
  | imc => exact congrArg (Owner.number .imc) (hnumber (by decide) hspelled)
  | dtn => exact congrArg (Owner.name .dtn) ((key_iff_name hspelled (htext rfl)).mp hkey)

theorem applies_of_spelled (hvalid : validQuota quotaType scheme nodename = true)
    (hspelled : Spelled scheme nodename) (hamong : ∀ eid, among eid → eid.Valid)
    (hother : ∀ eid, among eid → eid.scheme = .undefined →
      makeBardNodeStorageUsageKey quotaType eid ≠ makeKey quotaType scheme nodename)
    {store : OrdMap String StoredNode} (hstore : Keyed store) {u : Record}
    (hu : IsRecord among quotaType (makeKey quotaType scheme nodename) u.toNode)
    (htakes : StoreTakes store u) : Applies among quotaType scheme nodename u store := by
  have hrecord : scheme = .dtn ∨ SpelledNumber nodename := by
    cases scheme with
    | undefined => exact absurd rfl (scheme_of_valid hvalid)
    | ipn => exact Or.inr hspelled
    | imc => exact Or.inr hspelled
    | dtn => exact Or.inl rfl
  have hdurable := durableKey_isRecord hrecord hother hu
  constructor
  · intro eid heid
    cases scheme with
    | undefined => exact absurd rfl (scheme_of_valid hvalid)
    | ipn => exact key_iff_number (Or.inl rfl) hspelled eid
    | imc => exact key_iff_number (Or.inr rfl) hspelled eid
    | dtn =>
      have hother := hother eid heid
      have hname : makeKey quotaType .dtn eid.ssp = makeKey quotaType .dtn nodename ↔
          eid.ssp = nodename := key_iff_name hspelled (hamong eid heid).2
      unfold makeBardNodeStorageUsageKey at hother ⊢
      unfold Endpoint.owner
      cases hscheme : eid.scheme with
      | undefined =>
        rw [hscheme] at hother
        simp [ownerOf, hother rfl]
      | ipn => simp [ownerOf, makeKey_scheme_ne]
      | imc => simp [ownerOf, makeKey_scheme_ne]
      | dtn => simpa [ownerOf] using hname
  · exact hdurable
  · rw [← hdurable]
    exact (reloaded_iff hstore u).mpr htakes
  · rintro quotaType' scheme' nodename' hvalid' ⟨eid, heid, howner⟩ hne
    refine makeKey_distinct hvalid hspelled hvalid' ?_ hne
    rintro rfl
    have hssp : eid.ssp = nodename' := by
      revert howner
      unfold Endpoint.owner
      cases eid.scheme <;> simp [ownerOf]
    exact hssp ▸ (hamong eid heid).2

/-- A quota that tells the endpoints of its own scheme apart is spelled like them, and one whose record
is found again was taken by the store. -/
theorem spelled_of_applies (hvalid : validQuota quotaType scheme nodename = true)
    (hamong : ∀ eid : Endpoint, eid.Known → among eid) {store : OrdMap String StoredNode}
    (hstore : Keyed store) {u : Record} (h : Applies among quotaType scheme nodename u store) :
    Spelled scheme nodename ∧ StoreTakes store u := by
  have hempty : UriText "" := ⟨by decide, by decide⟩
  have hknown (s : NamingScheme) (hs : s ≠ .undefined) :
      Endpoint.Known ⟨s, strtoull 0 (cString nodename), ""⟩ :=
    ⟨⟨strtoull_lt 0 (cString nodename), hempty⟩, hs⟩
  have htakes : StoreTakes store u := by
    rw [← reloaded_iff hstore, h.durable]
    exact h.reloaded
  refine ⟨?_, htakes⟩
  cases scheme with
  | undefined => exact absurd rfl (scheme_of_valid hvalid)
  | ipn =>
    have howner : Endpoint.owner ⟨.ipn, strtoull 0 (cString nodename), ""⟩ =
        ownerOf .ipn nodename := rfl
    have hkey := (h.key_iff _ (hamong _ (hknown .ipn (by decide)))).mpr howner
    rw [makeBardNodeStorageUsageKey] at hkey
    exact spelled_of_key (by decide) hkey
  | imc =>
    have howner : Endpoint.owner ⟨.imc, strtoull 0 (cString nodename), ""⟩ =
        ownerOf .imc nodename := rfl
    have hkey := (h.key_iff _ (hamong _ (hknown .imc (by decide)))).mpr howner
    rw [makeBardNodeStorageUsageKey] at hkey
    exact spelled_of_key (by decide) hkey
  | dtn =>
    apply spelled_of_keys
    intro ssp hssp
    have hkey := h.key_iff ⟨.dtn, 0, ssp⟩ (hamong _ ⟨⟨by norm_num, hssp⟩, by simp⟩)
    exact hkey.trans ⟨fun howner => (Owner.name.inj howner).2, fun heq => by rw [heq]; rfl⟩

end

-- the record of `010` is stored under the key of node 10, so that the one of `10` is not stored
example : ¬ StoreTakes (updateDatastore .empty { toNode := ofNodename .dst .ipn "010" }).1
    { toNode := ofNodename .dst .ipn "10" } := by
  decide +kernel

end Dtnme.Bundling.Bard
