import Xctools.Machine.LastMatch
import Xctools.Broker.Policy

/-! The request filter of `msg.c`. The rules of the policy file come first, the rules of the
sender's virtual machine after them, and the last rule that matches decides. -/
namespace Xctools.Broker
open Machine

def uuidCacheLimit : ℕ := 1024
def maxUuid : ℕ := 128

def propertiesInterface : String := "org.freedesktop.DBus.Properties"

/-- `struct dbus_message`. An argument slot is what reading it as a string gives; the slots after
`args` hold what the memory held before. -/
structure DbusMessage where
  destination : CStr
  interface : CStr
  path : CStr
  member : CStr
  type : CStr := .null
  argNumber : ℕ := 0
  argSig : List Char := []
  jsonSig : List Char := []
  args : List CStr := []
  unset : CStr := .wild
  deriving DecidableEq, Repr

/-- The slot `args[i]`. -/
def DbusMessage.arg (dmsg : DbusMessage) (i : ℕ) : CStr := (dmsg.args[i]?).getD dmsg.unset

/-- All four names are there. -/
def DbusMessage.Complete (dmsg : DbusMessage) : Prop :=
  ∃ d i p m, dmsg.destination = .live d ∧ dmsg.interface = .live i ∧ dmsg.path = .live p ∧
    dmsg.member = .live m

/-- What the filter asks others: xenstore, when the broker is built with it and it opens, the
database's string replies, and the machine `m` in xenmgr's reply `/vm/m` to `find_vm_by_domid`,
if the reply is such a path. -/
structure World where
  haveXenstore : Bool
  xsOpen : Bool
  xsRead : String → Option String
  dbRead : String → Option String
  findVmByDomid : ℕ → Option String

/-- The globals `dbus_broker_policy` and `domain_uuids`. -/
structure BrokerState where
  policy : Option Policy
  uuids : ℕ → Option String

/-- `is_stubdom`. A failing `xs_open` returns -1, which a `bool` turns into true. -/
def isStubdom (w : World) (domid : UInt16) : Bool :=
  if ¬ w.haveXenstore then false
  else if ¬ w.xsOpen then true
  else match w.xsRead ("/local/domain/" ++ toString domid.toNat ++ "/target") with
    | none => false
    | some value => 0 < value.length

/-- `get_db_vm_path`. -/
def getDbVmPath (w : World) (domid : UInt16) : Option String :=
  if w.haveXenstore ∧ w.xsOpen then w.xsRead ("/local/domain/" ++ toString domid.toNat ++ "/vm")
  else none

/-- `filter_if_bool`: whether the condition holds (the source returns 0). -/
def filterIfBool (w : World) (uuid boolCond : String) (boolFlag : Bool) : Bool :=
  match dbQuery w.dbRead (uuid ++ "/" ++ boolCond) with
  | none => false
  | some attrCond => ¬ (attrCond = "true" ∧ boolFlag = false ∨ attrCond = "false" ∧ boolFlag = true)

/-- One after the other, `rule->field && strcmp(rule->field, dmsg->field)`: true at the first
criterion that is set and differs, and then the later ones are not looked at. -/
def criteriaDiffer : List (CStr × CStr) → Outcome Bool
  | [] => .ok false
  | (criterion, field) :: rest =>
    if criterion.IsSet then do
      let c ← criterion.read
      let f ← field.read
      if c = f then criteriaDiffer rest else return true
    else criteriaDiffer rest

/-- The criteria of a rule beside the fields of a request they are compared with. -/
def Rule.against (r : Rule) (dmsg : DbusMessage) : List (CStr × CStr) :=
  [(r.destination, dmsg.destination), (r.path, dmsg.path), (r.interface, dmsg.interface),
    (r.member, dmsg.member)]

/-- The checks of `rule_matches_request` that need the sender's machine. A `dom-type` criterion only
asks for a known one. -/
def machineMatches (w : World) (domid : UInt16) (policyRule : Rule) : Outcome Bool :=
  match getDbVmPath w domid with
  | none => .ok false
  | some uuid =>
    if policyRule.ifBool.IsSet then do
      let boolCond ← policyRule.ifBool.read
      return filterIfBool w uuid boolCond policyRule.ifBoolFlag
    else .ok true

/-- `rule_matches_request`: the rule's policy, or nothing where the source returns -1. `database`
is `dbus_broker_policy->database`. -/
def ruleMatchesRequest (w : World) (database isClient : Bool) (dmsg : DbusMessage) (domid : UInt16)
    (policyRule : Rule) : Outcome (Option Bool) :=
  if domid = 0 then .ok (some true)
  else if policyRule.all then .ok (some policyRule.policy)
  else if policyRule.out then .ok (if isClient then none else some policyRule.policy)
  else if policyRule.stubdom ∧ ¬ isStubdom w domid then .ok none
  else do
    if ← criteriaDiffer (policyRule.against dmsg) then return none
    else if ¬ database then return some policyRule.policy
    else if policyRule.ifBool.IsSet ∨ policyRule.domtype.IsSet then
      let holds ← machineMatches w domid policyRule
      return if holds then some policyRule.policy else none
    else return some policyRule.policy

/-- `get_domain_policy`. -/
def getDomainPolicy (policy : Policy) (uuid : String) : Option DomainPolicy :=
  policy.domains.find? fun domain => domain.uuidDbFmt = uuid

/-- `get_uuid_from_domid`: the reply path less its first four characters. -/
def getUuidFromDomid (w : World) (domid : ℕ) : Option String :=
  (w.findVmByDomid domid).map fun vm =>
    String.ofList ((("/vm/" ++ vm).toList.drop 4).take (maxUuid - 1))

/-- The uuid `is_request_allowed` takes for a domid, and the cache afterwards. -/
def cachedUuid (w : World) (b : BrokerState) (domid : ℕ) : Option String × BrokerState :=
  match b.uuids domid with
  | some uuid => (some uuid, b)
  | none =>
    let uuid := getUuidFromDomid w domid
    (uuid, { b with uuids := fun d => if d = domid then uuid else b.uuids d })

/-- The request `filter_property_request` makes up: the property's interface and name are the
arguments of the request at hand, and its own arguments are never set. -/
def propertyReq (dmsg : DbusMessage) : Outcome DbusMessage := do
  let member ← dmsg.member.read
  return { destination := dmsg.destination, interface := dmsg.arg 0, path := .live "/",
           member := if member = "GetAll" then .live "None" else dmsg.arg 1 }

/-- `is_request_allowed`, with a bound on how often `filter_property_request` calls it again. -/
def isRequestAllowedWithin :
    ℕ → World → BrokerState → DbusMessage → Bool → ℕ → Outcome (Bool × BrokerState)
  | 0, _, _, _, _, _ => .error .loop
  | n + 1, w, b, dmsg, isClient, domid =>
    match b.policy with
    | none => .ok (false, b)
    | some policy => do
      let rule := ruleMatchesRequest w policy.database isClient dmsg (UInt16.ofNat domid)
      let allowed ← judge rule false policy.etc
      if ¬ policy.database ∨ uuidCacheLimit ≤ domid then return (allowed, b)
      else
        let (uuid, b') := cachedUuid w b domid
        match uuid.bind (getDomainPolicy policy) with
        | none => return (allowed, b')
        | some domain =>
          let allowed ← judge rule allowed domain.rules
          let interface ← dmsg.interface.read
          if interface = propertiesInterface then
            let req ← propertyReq dmsg
            isRequestAllowedWithin n w b' req true domid
          else return (allowed, b')

/-- `is_request_allowed`. A property request is answered by a second look at the rules; the third
reads arguments that were never set and stops. -/
def isRequestAllowed (w : World) (b : BrokerState) (dmsg : DbusMessage) (isClient : Bool) (domid : ℕ) :
    Outcome (Bool × BrokerState) :=
  isRequestAllowedWithin 3 w b dmsg isClient domid

section Verdict
variable (w : World) (b : BrokerState) (dmsg : DbusMessage) (isClient : Bool) (domid : ℕ)

/-- The uuid of the machine behind a domid, as far as the broker knows it. -/
def uuidInForce : Option String := (b.uuids domid).or (getUuidFromDomid w domid)

/-- The domain entry consulted for a domid. -/
def domainInForce : Option DomainPolicy :=
  b.policy.bind fun policy =>
    if policy.database ∧ domid < uuidCacheLimit then
      (uuidInForce w b domid).bind (getDomainPolicy policy)
    else none

/-- The list of rules a request is judged by. -/
def rulesInForce : List Rule :=
  ((b.policy.map Policy.etc).getD []) ++ ((domainInForce w b domid).map DomainPolicy.rules).getD []

/-- Whether the policy in force came with a database. -/
def BrokerState.database (b : BrokerState) : Bool := (b.policy.map Policy.database).getD false

/-- What each rule in force says to a request. -/
def ruleVerdict (r : Rule) : Outcome (Option Bool) :=
  ruleMatchesRequest w b.database isClient dmsg (UInt16.ofNat domid) r

/-- The globals after a request: at most the cache entry of its domid is new. -/
def brokerAfter : BrokerState :=
  if b.database ∧ domid < uuidCacheLimit then (cachedUuid w b domid).2 else b

lemma cachedUuid_fst : (cachedUuid w b domid).1 = uuidInForce w b domid := by
  cases h : b.uuids domid <;> simp [cachedUuid, uuidInForce, h]

/-- One level of the filter: the rules in force are walked with one accumulator, and only a
consulted domain entry leads on to the property check. -/
lemma isRequestAllowedWithin_succ (n : ℕ) :
    isRequestAllowedWithin (n + 1) w b dmsg isClient domid = do
      let allowed ← judge (ruleVerdict w b dmsg isClient domid) false (rulesInForce w b domid)
      if (domainInForce w b domid).isSome then
        let interface ← dmsg.interface.read
        if interface = propertiesInterface then
          let req ← propertyReq dmsg
          isRequestAllowedWithin n w (brokerAfter w b domid) req true domid
        else return (allowed, brokerAfter w b domid)
      else return (allowed, brokerAfter w b domid) := by
  cases hp : b.policy with
  | none =>
    simp [isRequestAllowedWithin, hp, rulesInForce, domainInForce, brokerAfter,
      BrokerState.database]
  | some policy =>
    have hv : ruleVerdict w b dmsg isClient domid =
        ruleMatchesRequest w policy.database isClient dmsg (UInt16.ofNat domid) := by
      funext r
      simp [ruleVerdict, BrokerState.database, hp]
    by_cases hc : policy.database ∧ domid < uuidCacheLimit
    · have hd : domainInForce w b domid = (cachedUuid w b domid).1.bind (getDomainPolicy policy) := by
        simp [domainInForce, hp, hc, cachedUuid_fst]
      have hb : brokerAfter w b domid = (cachedUuid w b domid).2 := by
        simp [brokerAfter, BrokerState.database, hp, hc]
      have hn : ¬ (¬ policy.database ∨ uuidCacheLimit ≤ domid) := by
        rintro (h | h)
        · exact h hc.1
        · exact absurd hc.2 (Nat.not_lt.mpr h)
      rw [isRequestAllowedWithin, hp, hv, hb]
      simp only [if_neg hn, rulesInForce, hd, hp]
      cases (cachedUuid w b domid).1.bind (getDomainPolicy policy) with
      | none => simp
      | some domain =>
        simp only [judge_append, Option.map_some, Option.getD_some, Option.isSome_some, if_true]
        cases judge (ruleMatchesRequest w policy.database isClient dmsg (UInt16.ofNat domid)) false
          policy.etc <;> rfl
    · have hd : domainInForce w b domid = none := by simp [domainInForce, hp, hc]
      have hb : brokerAfter w b domid = b := by
        simp only [brokerAfter, BrokerState.database, hp, Option.map_some, Option.getD_some, if_neg hc]
      have hn : ¬ policy.database ∨ uuidCacheLimit ≤ domid := by
        by_cases hdb : policy.database
        · exact .inr (Nat.not_lt.mp fun h => hc ⟨hdb,h⟩)
        · exact .inl hdb
      rw [isRequestAllowedWithin, hp, hv, hb]
      simp only [if_pos hn, rulesInForce, hd, hp]
      simp

/-- Outside the properties interface the filter is the last-match loop and nothing else. -/
lemma isRequestAllowedWithin_eq_judge (n : ℕ) {i : String} (hi : dmsg.interface = .live i)
    (hp : i ≠ propertiesInterface) :
    isRequestAllowedWithin (n + 1) w b dmsg isClient domid =
      (judge (ruleVerdict w b dmsg isClient domid) false (rulesInForce w b domid)).map
        fun v => (v, brokerAfter w b domid) := by
  rw [isRequestAllowedWithin_succ, hi]
  cases judge (ruleVerdict w b dmsg isClient domid) false (rulesInForce w b domid) with
  | error e => rfl
  | ok v => simp [hp, Except.map]

lemma isRequestAllowed_eq_judge {i : String} (hi : dmsg.interface = .live i)
    (hp : i ≠ propertiesInterface) :
    isRequestAllowed w b dmsg isClient domid =
      (judge (ruleVerdict w b dmsg isClient domid) false (rulesInForce w b domid)).map
        fun v => (v, brokerAfter w b domid) :=
  isRequestAllowedWithin_eq_judge w b dmsg isClient domid 2 hi hp

/-- Two bounds give one result when they do on the request made up for the property check. -/
lemma isRequestAllowedWithin_congr {n m : ℕ}
    (h : ∀ req, propertyReq dmsg = .ok req → ∀ b',
      dmsg.interface.read = .ok propertiesInterface →
      isRequestAllowedWithin n w b' req true domid = isRequestAllowedWithin m w b' req true domid) :
    isRequestAllowedWithin (n + 1) w b dmsg isClient domid =
      isRequestAllowedWithin (m + 1) w b dmsg isClient domid := by
  rw [isRequestAllowedWithin_succ, isRequestAllowedWithin_succ]
  cases hi : dmsg.interface.read with
  | error e => rfl
  | ok i =>
    by_cases hp : i = propertiesInterface
    · cases hr : propertyReq dmsg with
      | error e => rfl
      | ok req =>
        have hb := h req hr (brokerAfter w b domid) (by rw [hi, hp])
        simp only [ok_bind, hb]
    · simp only [ok_bind, if_neg hp]

lemma propertyReq_args {req : DbusMessage} (h : propertyReq dmsg = .ok req) :
    req.interface = dmsg.arg 0 ∧ ∀ i, req.arg i = .wild := by
  obtain ⟨m,-,hm⟩ := bind_eq_ok.mp h
  obtain rfl := Except.ok.inj hm
  exact ⟨rfl,fun i => by simp [DbusMessage.arg]⟩

/-- More than three levels are never entered: the request made up at the second level takes its
interface from arguments that were never set, so the third level cannot pass the property check. -/
theorem isRequestAllowedWithin_add_three (n : ℕ) :
    isRequestAllowedWithin (n + 3) w b dmsg isClient domid =
      isRequestAllowed w b dmsg isClient domid := by
  apply isRequestAllowedWithin_congr w b dmsg
  intro req hreq b₁ _
  obtain ⟨-,harg⟩ := propertyReq_args dmsg hreq
  apply isRequestAllowedWithin_congr w b₁ req
  intro req' hreq' b₂ _
  obtain ⟨hi,-⟩ := propertyReq_args req hreq'
  apply isRequestAllowedWithin_congr w b₂ req'
  intro _ _ _ hread
  rw [hi, harg] at hread
  cases hread

@[simp] lemma brokerAfter_policy : (brokerAfter w b domid).policy = b.policy := by
  simp only [brokerAfter, cachedUuid]
  split_ifs
  · cases b.uuids domid <;> rfl
  · rfl

@[simp] lemma brokerAfter_database : (brokerAfter w b domid).database = b.database := by
  simp [BrokerState.database]

/-- A second look at the same domid finds the same entry and the same rules. -/
@[simp] lemma domainInForce_brokerAfter :
    domainInForce w (brokerAfter w b domid) domid = domainInForce w b domid := by
  have huuid : uuidInForce w (brokerAfter w b domid) domid = uuidInForce w b domid := by
    unfold brokerAfter cachedUuid
    split_ifs
    · cases hu : b.uuids domid <;> simp [uuidInForce, hu]
    · rfl
  simp [domainInForce, huuid]

@[simp] lemma rulesInForce_brokerAfter :
    rulesInForce w (brokerAfter w b domid) domid = rulesInForce w b domid := by
  simp [rulesInForce]

@[simp] lemma ruleVerdict_brokerAfter :
    ruleVerdict w (brokerAfter w b domid) dmsg isClient domid = ruleVerdict w b dmsg isClient domid := by
  funext r
  simp [ruleVerdict]

lemma brokerAfter_idem : brokerAfter w (brokerAfter w b domid) domid = brokerAfter w b domid := by
  by_cases hc : b.database ∧ domid < uuidCacheLimit
  · have hb : brokerAfter w b domid = (cachedUuid w b domid).2 := if_pos hc
    have hc' : (cachedUuid w b domid).2.database ∧ domid < uuidCacheLimit := by
      rw [← hb, brokerAfter_database]
      exact hc
    rw [hb, brokerAfter, if_pos hc']
    cases hu : b.uuids domid with
    | some uuid => simp [cachedUuid, hu]
    | none =>
      cases hg : getUuidFromDomid w domid with
      | none =>
        simp only [cachedUuid, hu, hg, if_true]
        congr 1
        funext d
        by_cases hd : d = domid <;> simp [hd]
      | some uuid => simp [cachedUuid, hu, hg]
  · have hb : brokerAfter w b domid = b := if_neg hc
    rw [hb, hb]

/-- What is cached after a request was so before, or has just been looked up for its domid. -/
lemma brokerAfter_uuids {d : ℕ} {uuid : String} (h : (brokerAfter w b domid).uuids d = some uuid) :
    b.uuids d = some uuid ∨
      b.uuids d = none ∧ d = domid ∧ getUuidFromDomid w domid = some uuid := by
  unfold brokerAfter cachedUuid at h
  split_ifs at h
  · cases hu : b.uuids domid with
    | some u =>
      rw [hu] at h
      exact .inl h
    | none =>
      rw [hu] at h
      by_cases hd : d = domid
      · subst hd
        exact .inr ⟨hu,rfl,by simpa using h⟩
      · exact .inl (by simpa [hd] using h)
  · exact .inl h

/-- A consulted entry belongs to the policy and carries the uuid that is cached afterwards. -/
lemma domainInForce_eq_some {entry : DomainPolicy} (h : domainInForce w b domid = some entry) :
    ∃ policy, b.policy = some policy ∧ entry ∈ policy.domains ∧
      (brokerAfter w b domid).uuids domid = some entry.uuidDbFmt := by
  cases hp : b.policy with
  | none => simp [domainInForce, hp] at h
  | some policy =>
    by_cases hc : policy.database ∧ domid < uuidCacheLimit
    · have hd : domainInForce w b domid = (uuidInForce w b domid).bind (getDomainPolicy policy) := by
        simp [domainInForce, hp, hc]
      rw [hd] at h
      obtain ⟨uuid,hu,hf⟩ := Option.bind_eq_some_iff.mp h
      have hfmt : entry.uuidDbFmt = uuid := by simpa using List.find?_some hf
      have hb : brokerAfter w b domid = (cachedUuid w b domid).2 := by
        simp [brokerAfter, BrokerState.database, hp, hc]
      refine ⟨policy,rfl,List.mem_of_find?_eq_some hf,?_⟩
      rw [hb, hfmt, ← hu]
      cases hcache : b.uuids domid <;> simp [cachedUuid, uuidInForce, hcache]
    · simp [domainInForce, hp, hc] at h

/-- Whatever the verdict, a request leaves the globals as `brokerAfter` says. -/
lemma isRequestAllowedWithin_broker {n : ℕ} {b b' : BrokerState} {dmsg : DbusMessage}
    {isClient allowed : Bool} (h : isRequestAllowedWithin n w b dmsg isClient domid = .ok (allowed, b')) :
    b' = brokerAfter w b domid := by
  induction n generalizing b dmsg isClient with
  | zero => cases h
  | succ n ih =>
    rw [isRequestAllowedWithin_succ] at h
    obtain ⟨v,-,h⟩ := bind_eq_ok.mp h
    split_ifs at h
    · obtain ⟨i,-,h⟩ := bind_eq_ok.mp h
      split_ifs at h
      · obtain ⟨req,-,h⟩ := bind_eq_ok.mp h
        rw [ih h, brokerAfter_idem]
      · cases h
        rfl
    · cases h
      rfl

end Verdict

/-- Every criterion that is reached is compared with a string. -/
def Comparable : List (CStr × CStr) → Prop
  | [] => True
  | (criterion, field) :: rest =>
    if criterion.IsSet then
      ∃ c f, criterion = .live c ∧ field = .live f ∧ (c = f → Comparable rest)
    else Comparable rest

lemma returns_criteriaDiffer_iff (l : List (CStr × CStr)) :
    Returns (criteriaDiffer l) ↔ Comparable l := by
  induction l with
  | nil => simp [criteriaDiffer, Comparable]
  | cons p l ih =>
    obtain ⟨criterion,field⟩ := p
    cases criterion with
    | null => simpa [criteriaDiffer, Comparable] using ih
    | wild => simp [criteriaDiffer, Comparable]
    | live c =>
      cases field with
      | null => simp [criteriaDiffer, Comparable]
      | wild => simp [criteriaDiffer, Comparable]
      | live f =>
        by_cases hcf : c = f
        · simpa [criteriaDiffer, Comparable, hcf] using ih
        · simp [criteriaDiffer, Comparable, hcf]

/-- The rule can be held against the request: it does not get to its criteria, or all it compares
are strings. -/
def Readable (w : World) (database : Bool) (dmsg : DbusMessage) (domid : UInt16) (r : Rule) : Prop :=
  domid = 0 ∨ r.all ∨ r.out ∨ (r.stubdom ∧ ¬ isStubdom w domid) ∨
    (Comparable (r.against dmsg) ∧ (criteriaDiffer (r.against dmsg) = .ok false → database →
      (getDbVmPath w domid).isSome → r.ifBool.Sound))

lemma returns_machineMatches_iff (w : World) (domid : UInt16) (r : Rule) :
    Returns (machineMatches w domid r) ↔ ((getDbVmPath w domid).isSome → r.ifBool.Sound) := by
  unfold machineMatches
  cases getDbVmPath w domid with
  | none => simp
  | some uuid => cases hb : r.ifBool <;> simp

lemma returns_ruleMatchesRequest_iff (w : World) (database isClient : Bool) (dmsg : DbusMessage)
    (domid : UInt16) (r : Rule) :
    Returns (ruleMatchesRequest w database isClient dmsg domid r) ↔
      Readable w database dmsg domid r := by
  have hm := returns_machineMatches_iff w domid r
  have hc := returns_criteriaDiffer_iff (r.against dmsg)
  unfold ruleMatchesRequest Readable
  by_cases h₀ : domid = 0
  · simp [h₀]
  by_cases hall : r.all
  · simp [hall, h₀]
  by_cases hout : r.out
  · simp [hout, hall, h₀]
  by_cases hstub : r.stubdom ∧ ¬ isStubdom w domid
  · simp [hstub, hout, hall, h₀]
  rw [if_neg h₀, if_neg hall, if_neg hout, if_neg hstub, ← hc]
  simp only [h₀, hall, hout, hstub, Bool.false_eq_true, false_or]
  cases hd : criteriaDiffer (r.against dmsg) with
  | error e => simp
  | ok differs =>
    cases differs with
    | true => simp
    | false =>
      by_cases hdb : database
      · by_cases hset : r.ifBool.IsSet ∨ r.domtype.IsSet
        · simpa [hdb, hset] using hm
        · obtain ⟨hbool,htype⟩ := not_or.mp hset
          have hnull : r.ifBool = .null := not_not.mp hbool
          simp [hdb, htype, hnull]
      · simp [hdb]

lemma comparable_of_sound {l : List (CStr × CStr)}
    (h : ∀ p ∈ l, p.1.Sound ∧ ∃ s, p.2 = .live s) : Comparable l := by
  induction l with
  | nil => trivial
  | cons p l ih =>
    obtain ⟨⟨hc,s,hs⟩,hl⟩ := List.forall_mem_cons.mp h
    obtain ⟨c,f⟩ := p
    cases c with
    | null => simpa [Comparable] using ih hl
    | wild => exact absurd rfl hc
    | live a => simpa [Comparable] using ⟨s,hs,fun _ => ih hl⟩

/-- A sound rule can be held against every complete request. -/
lemma readable_of_sound (w : World) (database : Bool) {dmsg : DbusMessage} (domid : UInt16) {r : Rule}
    (hm : dmsg.Complete) (hr : r.Sound) : Readable w database dmsg domid r := by
  obtain ⟨d,i,p,m,hd,hi,hp,hmem⟩ := hm
  have hcomp : Comparable (r.against dmsg) := by
    apply comparable_of_sound
    simp only [Rule.against, List.forall_mem_cons, hd, hi, hp, hmem]
    simp only [Rule.Sound, Rule.strings, List.forall_mem_cons] at hr
    simp [hr.1, hr.2.1, hr.2.2.1, hr.2.2.2.1]
  have hbool : r.ifBool.Sound := hr r.ifBool (by simp [Rule.strings])
  exact .inr (.inr (.inr (.inr ⟨hcomp,fun _ _ _ => hbool⟩)))

lemma answered_iff (w : World) (b : BrokerState) (dmsg : DbusMessage) (isClient : Bool) (domid : ℕ) :
    Answered (ruleVerdict w b dmsg isClient domid) (rulesInForce w b domid) ↔
      ∀ r ∈ rulesInForce w b domid, Readable w b.database dmsg (UInt16.ofNat domid) r :=
  forall₂_congr fun r _ => returns_ruleMatchesRequest_iff w b.database isClient dmsg _ r

section LastMatchWins
variable (w : World) (b : BrokerState) (dmsg : DbusMessage) (isClient : Bool) (domid : ℕ)

/-- The value `is_request_allowed` returns. -/
def verdict : Outcome Bool := (isRequestAllowed w b dmsg isClient domid).map Prod.fst

lemma verdict_eq_judge {i : String} (hi : dmsg.interface = .live i) (hp : i ≠ propertiesInterface) :
    verdict w b dmsg isClient domid =
      judge (ruleVerdict w b dmsg isClient domid) false (rulesInForce w b domid) := by
  rw [verdict, isRequestAllowed_eq_judge w b dmsg isClient domid hi hp]
  cases judge (ruleVerdict w b dmsg isClient domid) false (rulesInForce w b domid) <;> rfl

lemma verdict_eq_true_iff {i : String} (hi : dmsg.interface = .live i)
    (hp : i ≠ propertiesInterface) :
    verdict w b dmsg isClient domid = .ok true ↔
      Answered (ruleVerdict w b dmsg isClient domid) (rulesInForce w b domid) ∧
        LastMatch (ruleVerdict w b dmsg isClient domid) (rulesInForce w b domid) true := by
  rw [verdict_eq_judge w b dmsg isClient domid hi hp, judge_eq_ok_iff]
  simp

lemma answered_of_sound (hm : dmsg.Complete) (hs : ∀ r ∈ rulesInForce w b domid, r.Sound) :
    Answered (ruleVerdict w b dmsg isClient domid) (rulesInForce w b domid) :=
  (answered_iff w b dmsg isClient domid).mpr fun r hr => readable_of_sound w b.database _ hm (hs r hr)

/-- A rule put after those in force has the last word, or none. -/
lemma verdict_append_rule {i : String} (hi : dmsg.interface = .live i)
    (hp : i ≠ propertiesInterface) {b' : BrokerState} {r : Rule} (hdb : b'.database = b.database)
    (hr : rulesInForce w b' domid = rulesInForce w b domid ++ [r]) {v : Option Bool}
    (hv : ruleVerdict w b dmsg isClient domid r = .ok v) :
    verdict w b' dmsg isClient domid =
      (verdict w b dmsg isClient domid).map fun allowed => v.getD allowed := by
  have hf : ruleVerdict w b' dmsg isClient domid = ruleVerdict w b dmsg isClient domid := by
    funext x
    simp [ruleVerdict, hdb]
  rw [verdict_eq_judge w b' dmsg isClient domid hi hp, verdict_eq_judge w b dmsg isClient domid hi hp,
    hf, hr, judge_append]
  cases judge (ruleVerdict w b dmsg isClient domid) false (rulesInForce w b domid) with
  | error e => rfl
  | ok allowed => simp [hv, Except.map]

/-- Last match wins, default deny. The filter says yes exactly when every rule in force answers and
the last one that matches allows; sound rules answer complete requests; and a rule appended to
those in force changes nothing when it does not match and decides alone when it does. -/
theorem isRequestAllowed_lastMatch {i : String} (hi : dmsg.interface = .live i)
    (hp : i ≠ propertiesInterface) :
    (verdict w b dmsg isClient domid = .ok true ↔
      Answered (ruleVerdict w b dmsg isClient domid) (rulesInForce w b domid) ∧
        LastMatch (ruleVerdict w b dmsg isClient domid) (rulesInForce w b domid) true) ∧
    (dmsg.Complete → (∀ r ∈ rulesInForce w b domid, r.Sound) →
      ∃ allowed, verdict w b dmsg isClient domid = .ok allowed ∧
        (allowed = true ↔
          LastMatch (ruleVerdict w b dmsg isClient domid) (rulesInForce w b domid) true)) ∧
    ∀ b' r, b'.database = b.database → rulesInForce w b' domid = rulesInForce w b domid ++ [r] →
      (ruleVerdict w b dmsg isClient domid r = .ok none →
        verdict w b' dmsg isClient domid = verdict w b dmsg isClient domid) ∧
      ∀ v, ruleVerdict w b dmsg isClient domid r = .ok (some v) →
        verdict w b' dmsg isClient domid = (verdict w b dmsg isClient domid).map fun _ => v := by
  refine ⟨verdict_eq_true_iff w b dmsg isClient domid hi hp,fun hm hs => ?_,
    fun b' r hdb hr => ⟨fun hv => ?_,fun v hv => ?_⟩⟩
  · obtain ⟨allowed,hj⟩ := (answered_of_sound w b dmsg isClient domid hm hs).judge false
    exact ⟨allowed,(verdict_eq_judge w b dmsg isClient domid hi hp).trans hj,
      lastMatch_of_judge hj (by simp)⟩
  · rw [verdict_append_rule w b dmsg isClient domid hi hp hdb hr hv]
    cases verdict w b dmsg isClient domid <;> rfl
  · exact verdict_append_rule w b dmsg isClient domid hi hp hdb hr hv

end LastMatchWins

/-- A host whose machine `a_1` runs as domain 3, without xenstore. -/
def sampleWorld : World where
  haveXenstore := false
  xsOpen := false
  xsRead _ := none
  dbRead _ := none
  findVmByDomid domid := if domid = 3 then some "a_1" else none

/-- The policy file denies everything, the rules of machine `a-1` allow one interface. -/
def samplePolicy : Policy where
  database := true
  etc := [{ all := true }]
  domains := [⟨"a-1", "a_1", [{ policy := true, interface := .live "org.a" }]⟩]

def sampleBroker : BrokerState := ⟨some samplePolicy, fun _ => none⟩

/-- A call of the method `m` on the interface `org.a`. -/
def sampleMessage : DbusMessage where
  destination := .live "org.a"
  interface := .live "org.a"
  path := .live "/"
  member := .live "m"

theorem isRequestAllowed_lastMatch_sample :
    sampleMessage.interface = .live "org.a" ∧ "org.a" ≠ propertiesInterface ∧
      Answered (ruleVerdict sampleWorld sampleBroker sampleMessage true 3)
        (rulesInForce sampleWorld sampleBroker 3) ∧
      LastMatch (ruleVerdict sampleWorld sampleBroker sampleMessage true 3)
        (rulesInForce sampleWorld sampleBroker 3) true := by
  have hv : verdict sampleWorld sampleBroker sampleMessage true 3 = .ok true := by decide +kernel
  have hp : "org.a" ≠ propertiesInterface := by decide
  have h := (isRequestAllowed_lastMatch sampleWorld sampleBroker sampleMessage true 3 rfl hp).1
  exact ⟨rfl,hp,h.mp hv⟩

end Xctools.Broker
