import Xctools.Broker.Exchange
import Xctools.Broker.RequestSafety

/-! Requests on the properties interface. The filter makes up a request for the property and judges that one,
but it comes to this only behind the exits for domains it does not know, and it takes the property from
argument slots without a look at how many there are. -/
namespace Xctools.Broker
open Machine

section Judged
variable {w : World} {b : BrokerState} {dmsg : DbusMessage} {domid : ℕ} {i name : String}

/-- The request for a property of an interface. -/
def touched (dmsg : DbusMessage) (i name : String) : DbusMessage where
  destination := dmsg.destination
  interface := .live i
  path := .live "/"
  member := .live name

/-- The message is on the properties interface and carries the property's interface and, unless it asks for
all of them, the property's name. -/
structure Touches (dmsg : DbusMessage) (i name : String) : Prop where
  interface : dmsg.interface = .live propertiesInterface
  first : dmsg.args[0]? = some (.live i)
  member : dmsg.member = .live "GetAll" ∧ name = "None" ∨
    (∃ m, dmsg.member = .live m ∧ m ≠ "GetAll") ∧ dmsg.args[1]? = some (.live name)

/-- That is the request the filter makes up. -/
lemma Touches.propertyReq (h : Touches dmsg i name) : propertyReq dmsg = .ok (touched dmsg i name) := by
  have hfirst : dmsg.arg 0 = .live i := by rw [DbusMessage.arg, h.first, Option.getD_some]
  rcases h.member with ⟨hm,rfl⟩ | ⟨⟨m,hm,hne⟩,hsecond⟩
  · rw [Broker.propertyReq, hm, Ptr.read_live, ok_bind, if_pos rfl, hfirst]
    rfl
  · have harg : dmsg.arg 1 = .live name := by rw [DbusMessage.arg, hsecond, Option.getD_some]
    rw [Broker.propertyReq, hm, Ptr.read_live, ok_bind, if_neg hne, hfirst, harg]
    rfl

variable (w b dmsg domid i name)

/-- The last rule that matches a request allows it. -/
def RulesAllow (isClient : Bool) : Prop :=
  LastMatch (ruleVerdict w b dmsg isClient domid) (rulesInForce w b domid) true

/-- Every rule in force has strings to compare with those of a request. -/
def RulesRead : Prop := ∀ r ∈ rulesInForce w b domid, Readable w b.database dmsg (UInt16.ofNat domid) r

/-- The verdict is the one of the request for the property. -/
def JudgedByProperty : Prop :=
  ∃ v, verdict w b dmsg true domid = .ok v ∧
    judge (ruleVerdict w b (touched dmsg i name) true domid) false (rulesInForce w b domid) = .ok v

/-- The rules have strings to compare in the message and in the request for its property; and the domain has an
entry and the property is not one of the properties interface itself, or it has none and the last rule that
matches says the same to both. -/
def Mirrored : Prop :=
  RulesRead w b dmsg domid ∧ RulesRead w b (touched dmsg i name) domid ∧
  ((domainInForce w b domid).isSome = true → i ≠ propertiesInterface) ∧
  ((domainInForce w b domid).isSome = false →
    (RulesAllow w b dmsg domid true ↔ RulesAllow w b (touched dmsg i name) domid true))

variable {w b dmsg domid i name}

lemma Touches.judgedRequest (h : Touches dmsg i name) :
    judgedRequest w b dmsg domid = if (domainInForce w b domid).isSome then touched dmsg i name else dmsg := by
  unfold Broker.judgedRequest
  by_cases hd : (domainInForce w b domid).isSome
  · rw [if_pos ⟨hd,h.interface⟩, if_pos hd, h.propertyReq]
    rfl
  · rw [if_neg fun hc => hd hc.1, if_neg hd]

/-- What the filter needs to come to a verdict on a property request. -/
lemma Touches.filterReads_iff (h : Touches dmsg i name) : FilterReads w b dmsg domid ↔
    RulesRead w b dmsg domid ∧ ((domainInForce w b domid).isSome →
      i ≠ propertiesInterface ∧ RulesRead w b (touched dmsg i name) domid) := by
  unfold FilterReads
  refine and_congr_right fun _ => forall_congr' fun _ => ?_
  constructor
  · rintro ⟨k,hk,hreads⟩
    rw [h.interface] at hk
    obtain ⟨req,j,hreq,hj,hne,hrules⟩ := hreads (Ptr.live.inj hk).symm
    rw [h.propertyReq] at hreq
    obtain rfl := Except.ok.inj hreq
    obtain rfl := Ptr.live.inj hj
    exact ⟨hne,hrules⟩
  · rintro ⟨hne,hrules⟩
    exact ⟨_,h.interface,fun _ => ⟨_,i,h.propertyReq,rfl,hne,hrules⟩⟩

lemma verdict_eq_ok_iff {isClient v : Bool} :
    verdict w b dmsg isClient domid = .ok v ↔ ∃ b', isRequestAllowed w b dmsg isClient domid = .ok (v, b') := by
  unfold verdict
  cases isRequestAllowed w b dmsg isClient domid with
  | error e => simp [Except.map]
  | ok r => simp [Except.map, Prod.ext_iff]

/-- A property request is judged by the property exactly when its domain has an entry of its own, or when it
happens to make no difference. -/
theorem property_judged_iff (h : Touches dmsg i name) :
    JudgedByProperty w b dmsg domid i name ↔ Mirrored w b dmsg domid i name := by
  have hanswered := answered_iff w b (touched dmsg i name) true domid
  constructor
  · rintro ⟨v,hv,hjudge⟩
    obtain ⟨b',hallowed⟩ := verdict_eq_ok_iff.mp hv
    obtain ⟨hrules,hreads⟩ := h.filterReads_iff.mp ((returns_isRequestAllowed_iff w b dmsg true domid).mp ⟨_,hallowed⟩)
    have htouched := hanswered.mp (returns_judge_iff.mp ⟨v,hjudge⟩)
    refine ⟨hrules,htouched,fun hd => (hreads hd).1,fun hd => ?_⟩
    have hlet := allowed_iff_letThrough hallowed
    rw [LetThrough, h.judgedRequest, hd] at hlet
    exact hlet.symm.trans (lastMatch_of_judge hjudge (by simp))
  · rintro ⟨hrules,htouched,hother,hsame⟩
    obtain ⟨⟨v,b'⟩,hallowed⟩ := (returns_isRequestAllowed_iff w b dmsg true domid).mpr (h.filterReads_iff.mpr
      ⟨hrules,fun hd => ⟨hother hd,htouched⟩⟩)
    obtain ⟨v',hjudge⟩ := (hanswered.mpr htouched).judge false
    have hlet := allowed_iff_letThrough hallowed
    have hmatch := lastMatch_of_judge hjudge (show true ≠ false by simp)
    rw [LetThrough, h.judgedRequest] at hlet
    have hiff : v = true ↔ v' = true := by
      cases hd : (domainInForce w b domid).isSome with
      | true =>
        rw [hd, if_pos rfl] at hlet
        exact hlet.trans hmatch.symm
      | false =>
        rw [hd, if_neg (by decide)] at hlet
        exact hlet.trans ((hsame hd).trans hmatch.symm)
    rw [← Bool.eq_iff_iff] at hiff
    exact ⟨v,verdict_eq_ok_iff.mpr ⟨b',hallowed⟩,hiff ▸ hjudge⟩

end Judged

/-- A client asks for the property `x` of `org.a`. -/
def sampleGet : DbusMessage where
  destination := .live "org.a"
  interface := .live propertiesInterface
  path := .live "/"
  member := .live "Get"
  args := [.live "org.a", .live "x"]

lemma touches_sampleGet : Touches sampleGet "org.a" "x" := ⟨rfl,rfl,.inr ⟨⟨"Get",rfl,by decide⟩,rfl⟩⟩

lemma sound_sampleRules : ∀ r ∈ rulesInForce sampleWorld sampleBroker 3, r.Sound := by
  have hrules : rulesInForce sampleWorld sampleBroker 3 =
      [{ all := true }, { policy := true, interface := .live "org.a" }] := by decide +kernel
  rw [hrules]
  simp [Rule.Sound, Rule.strings]

theorem property_judged_known : Touches sampleGet "org.a" "x" ∧
    JudgedByProperty sampleWorld sampleBroker sampleGet 3 "org.a" "x" := by
  refine ⟨touches_sampleGet,(property_judged_iff touches_sampleGet).mpr ⟨?_,?_,fun _ => by decide,?_⟩⟩
  · exact fun r hr => readable_of_sound _ _ _ ⟨_,_,_,_,rfl,rfl,rfl,rfl⟩ (sound_sampleRules r hr)
  · exact fun r hr => readable_of_sound _ _ _ ⟨_,_,_,_,rfl,rfl,rfl,rfl⟩ (sound_sampleRules r hr)
  · intro hd
    have hknown : (domainInForce sampleWorld sampleBroker 3).isSome = true := by decide +kernel
    rw [hknown] at hd
    cases hd

/-- A policy file that allows the properties interface and nothing else, and no database. -/
def propertiesBroker : BrokerState :=
  ⟨some ⟨false, [{ policy := true, interface := .live propertiesInterface }], []⟩, fun _ => none⟩

/-- Without a database the request is judged by the interface it comes on. -/
theorem property_not_judged : Touches sampleGet "org.a" "x" ∧
    verdict sampleWorld propertiesBroker sampleGet true 3 = .ok true ∧
    judge (ruleVerdict sampleWorld propertiesBroker (touched sampleGet "org.a" "x") true 3) false
      (rulesInForce sampleWorld propertiesBroker 3) = .ok false ∧
    ¬ JudgedByProperty sampleWorld propertiesBroker sampleGet 3 "org.a" "x" := by
  have hverdict : verdict sampleWorld propertiesBroker sampleGet true 3 = .ok true := by decide +kernel
  have hjudge : judge (ruleVerdict sampleWorld propertiesBroker (touched sampleGet "org.a" "x") true 3) false
      (rulesInForce sampleWorld propertiesBroker 3) = .ok false := by decide +kernel
  refine ⟨touches_sampleGet,hverdict,hjudge,?_⟩
  rintro ⟨v,hv,hv'⟩
  rw [hverdict] at hv
  rw [hjudge] at hv'
  cases (Except.ok.inj hv).trans (Except.ok.inj hv').symm

section Decoded
variable {n : ℕ} {args : List RawArg} {lib : Libdbus} {msg : List UInt8} {m : RawMessage}

/-- The string arguments, which are the only ones that are stored. -/
def storedStrings (args : List RawArg) : List String :=
  args.filterMap fun arg => match arg with
    | .string s => some s
    | _ => none

/-- There is no `int32` among the arguments, and there are slots for the strings. -/
def Storable (n : ℕ) (args : List RawArg) : Prop := .int32 ∉ args ∧ (storedStrings args).length ≤ n

lemma convertArgs_eq (h : Storable n args) :
    convertArgs n args = .ok ((storedStrings args).map fun s => ('s', .live s)) := by
  induction args generalizing n with
  | nil => cases n <;> rfl
  | cons arg args ih =>
    obtain ⟨hint,hlen⟩ := h
    rw [List.mem_cons, not_or] at hint
    cases arg with
    | int32 => exact absurd rfl hint.1
    | other =>
      have hrest : convertArgs n (.other :: args) = convertArgs n args := by cases n <;> rfl
      rw [hrest]
      exact ih ⟨hint.2,hlen⟩
    | string s =>
      cases n with
      | zero => cases hlen
      | succ n =>
        rw [convertArgs, ih ⟨hint.2,Nat.le_of_succ_le_succ hlen⟩]
        rfl

lemma storable_of_convertArgs {out : List (Char × CStr)} (h : convertArgs n args = .ok out) : Storable n args := by
  induction args generalizing n out with
  | nil => exact ⟨List.not_mem_nil,Nat.zero_le n⟩
  | cons arg args ih =>
    cases arg with
    | int32 => cases n <;> cases h
    | other =>
      have hrest : convertArgs n (.other :: args) = convertArgs n args := by cases n <;> rfl
      rw [hrest] at h
      obtain ⟨hint,hlen⟩ := ih h
      exact ⟨by simpa using hint,hlen⟩
    | string s =>
      cases n with
      | zero => cases h
      | succ n =>
        obtain ⟨rest,hrest,-⟩ := bind_eq_ok.mp h
        obtain ⟨hint,hlen⟩ := ih hrest
        exact ⟨by simpa using hint,Nat.succ_le_succ hlen⟩

variable (lib m) in
/-- The request that is made of a message: its strings are those of the message as long as that keeps them. -/
def decoded : DbusMessage where
  destination := lib.header m m.destination "NULL"
  path := lib.header m m.path "/"
  interface := lib.header m m.interface "NULL"
  member := lib.header m m.member "NULL"
  argNumber := (storedStrings m.args).length
  argSig := (storedStrings m.args).map fun _ => 's'
  args := (storedStrings m.args).map fun s => lib.behindUnref m (.live s)

lemma convertRawDbus_eq_ok_iff (hm : lib.demarshal msg = some m) {ret : ℤ} {dmsg : Option DbusMessage} :
    convertRawDbus lib msg = .ok (ret, dmsg) ↔
      Storable dbusMaxArgLen m.args ∧ m.type = ret ∧ some (decoded lib m) = dmsg := by
  have hdecoded : Storable dbusMaxArgLen m.args → convertRawDbus lib msg = .ok (m.type, some (decoded lib m)) := by
    intro h
    simp only [convertRawDbus, hm, convertArgs_eq h, ok_bind, List.length_map, List.map_map]
    rfl
  constructor
  · intro h
    have hstorable : Storable dbusMaxArgLen m.args := by
      simp only [convertRawDbus, hm] at h
      obtain ⟨args,hargs,-⟩ := bind_eq_ok.mp h
      exact storable_of_convertArgs hargs
    rw [hdecoded hstorable] at h
    exact ⟨hstorable,Prod.mk.inj (Except.ok.inj h)⟩
  · rintro ⟨hstorable,rfl,rfl⟩
    exact hdecoded hstorable

lemma header_eq_of_keeps (hkeeps : lib.keeps m = true) (field : Option String) (missing : String) :
    lib.header m field missing = .live (field.getD missing) := by
  cases field with
  | none => rfl
  | some s => exact if_pos hkeeps

/-- A name that can be read is the one that stands in, or the message keeps it. -/
lemma header_eq_live_iff {field : Option String} {missing s : String} : lib.header m field missing = .live s ↔
    field = none ∧ missing = s ∨ field = some s ∧ lib.keeps m = true := by
  cases field with
  | none => simp [Libdbus.header]
  | some t => by_cases hkeeps : lib.keeps m = true <;> simp [Libdbus.header, Libdbus.behindUnref, hkeeps]

end Decoded

section Rewriting
variable (lib : Libdbus) (w : World) (b : BrokerState) (msg : List UInt8) (m : RawMessage) (isClient : Bool) (domid : ℕ)

/-- The slots that `filter_property_request` takes were stored. -/
def SlotsStored (dmsg : DbusMessage) : Prop :=
  0 < dmsg.argNumber ∧ (m.member = some "GetAll" ∨ 1 < dmsg.argNumber)

/-- The first argument of the message is a string, and unless it asks for all properties the second one is. -/
def CarriesProperty : Prop :=
  (∃ i, m.args[0]? = some (.string i)) ∧ (m.member = some "GetAll" ∨ ∃ name, m.args[1]? = some (.string name))

/-- The filter comes to a verdict with at most one request made up, takes for it only what was stored, and
denies a property request that does not carry a property. -/
def FilteredOnce : Prop :=
  ∃ ret dmsg allowed b', convertRawDbus lib msg = .ok (ret, some dmsg) ∧
    isRequestAllowed w b dmsg isClient domid = .ok (allowed, b') ∧
    isRequestAllowedWithin 2 w b dmsg isClient domid = .ok (allowed, b') ∧
    (m.interface = some propertiesInterface → (domainInForce w b domid).isSome = true → SlotsStored m dmsg) ∧
    (m.interface = some propertiesInterface → ¬ CarriesProperty m → allowed = false)

/-- A property request of a known domain has enough strings and is not about the properties interface itself;
and the rules do not let one pass that carries no property. -/
def PropertyChecked : Prop :=
  ((domainInForce w b domid).isSome = true → ∃ i name, Touches (decoded lib m) i name ∧ i ≠ propertiesInterface ∧
    RulesRead w b (touched (decoded lib m) i name) domid ∧
    (¬ CarriesProperty m → ¬ RulesAllow w b (touched (decoded lib m) i name) domid true)) ∧
  ((domainInForce w b domid).isSome = false → ¬ CarriesProperty m → ¬ RulesAllow w b (decoded lib m) domid isClient)

variable {lib w b msg m isClient domid} {dmsg : DbusMessage} {i name : String}

/-- With the slots stored there is a request to make up, of strings of the message. -/
lemma slotsStored_decoded_iff (hprop : m.interface = some propertiesInterface) (hkeeps : lib.keeps m = true) :
    SlotsStored m (decoded lib m) ↔ ∃ i name, Touches (decoded lib m) i name := by
  have hget : ∀ (k : ℕ) (s : String), (decoded lib m).args[k]? = some (.live s) ↔ (storedStrings m.args)[k]? = some s := by
    intro k s
    simp [decoded, Libdbus.behindUnref, hkeeps, List.getElem?_map]
  have hinterface : (decoded lib m).interface = .live propertiesInterface := header_eq_live_iff.mpr (.inr ⟨hprop,hkeeps⟩)
  have hmember : (decoded lib m).member = .live (m.member.getD "NULL") := header_eq_of_keeps hkeeps _ _
  have hall : (decoded lib m).member = .live "GetAll" ↔ m.member = some "GetAll" := by
    rw [decoded, header_eq_live_iff]
    simp [hkeeps]
  constructor
  · rintro ⟨hpos,hslots⟩
    obtain ⟨i,hi⟩ : ∃ i, (storedStrings m.args)[0]? = some i := ⟨_,List.getElem?_eq_getElem hpos⟩
    by_cases hname : m.member = some "GetAll"
    · exact ⟨i,"None",hinterface,(hget 0 i).mpr hi,.inl ⟨hall.mpr hname,rfl⟩⟩
    · have hlt : 1 < (storedStrings m.args).length := hslots.resolve_left hname
      have hne : m.member.getD "NULL" ≠ "GetAll" := fun h => hname (hall.mp (by rw [hmember, h]))
      exact ⟨i,_,hinterface,(hget 0 i).mpr hi,.inr ⟨⟨_,hmember,hne⟩,(hget 1 _).mpr (List.getElem?_eq_getElem hlt)⟩⟩
  · rintro ⟨i,name,h⟩
    refine ⟨(List.getElem?_eq_some_iff.mp ((hget 0 i).mp h.first)).1,?_⟩
    rcases h.member with ⟨hname,-⟩ | ⟨-,hsecond⟩
    · exact .inl (hall.mp hname)
    · exact .inr (List.getElem?_eq_some_iff.mp ((hget 1 name).mp hsecond)).1

/-- A property request of a known domain gets the verdict of the request that is made up. -/
lemma Touches.within (h : Touches dmsg i name) (hd : (domainInForce w b domid).isSome = true)
    (hne : i ≠ propertiesInterface) (hread : RulesRead w b dmsg domid) (n : ℕ) :
    isRequestAllowedWithin (n + 2) w b dmsg isClient domid =
      (judge (ruleVerdict w b (touched dmsg i name) true domid) false (rulesInForce w b domid)).map
        fun v => (v, brokerAfter w b domid) := by
  obtain ⟨v,hv⟩ := ((answered_iff w b dmsg isClient domid).mpr hread).judge false
  rw [isRequestAllowedWithin_succ, hv, ok_bind, if_pos hd, h.interface, Ptr.read_live, ok_bind, if_pos rfl,
    h.propertyReq, ok_bind, isRequestAllowedWithin_eq_judge w (brokerAfter w b domid) (touched dmsg i name) true domid n
      rfl hne, ruleVerdict_brokerAfter, rulesInForce_brokerAfter, brokerAfter_idem]

/-- A request of an unknown domain is judged as it is. -/
lemma within_of_unknown (hd : (domainInForce w b domid).isSome = false) (n : ℕ) :
    isRequestAllowedWithin (n + 1) w b dmsg isClient domid =
      (judge (ruleVerdict w b dmsg isClient domid) false (rulesInForce w b domid)).map
        fun v => (v, brokerAfter w b domid) := by
  rw [isRequestAllowedWithin_succ]
  cases judge (ruleVerdict w b dmsg isClient domid) false (rulesInForce w b domid) with
  | error e => rfl
  | ok v =>
    rw [ok_bind, hd, if_neg (by decide)]
    rfl

/-- The second request is about another interface if that is the end of it. -/
lemma Touches.ne_of_within (h : Touches dmsg i name) (hd : (domainInForce w b domid).isSome = true)
    (hreturns : Returns (isRequestAllowedWithin 2 w b dmsg isClient domid)) :
    i ≠ propertiesInterface ∧ RulesRead w b (touched dmsg i name) domid := by
  obtain ⟨-,hnext⟩ := (returns_within_iff 1 w b dmsg isClient domid).mp hreturns
  obtain ⟨k,hk,hreq⟩ := hnext hd
  rw [h.interface] at hk
  obtain ⟨req,hreq,hsecond⟩ := hreq (Ptr.live.inj hk).symm
  rw [h.propertyReq] at hreq
  obtain rfl := Except.ok.inj hreq
  obtain ⟨hrules,hthird⟩ := (returns_within_iff 0 w _ _ true domid).mp hsecond
  rw [rulesInForce_brokerAfter, brokerAfter_database] at hrules
  refine ⟨?_,hrules⟩
  rintro rfl
  obtain ⟨k,hk,hreq⟩ := hthird (by rw [domainInForce_brokerAfter]; exact hd)
  obtain ⟨req,-,hloop⟩ := hreq (Ptr.live.inj hk).symm
  obtain ⟨r,hr⟩ := hloop
  cases hr

lemma eq_ok_of_map {x : Outcome Bool} {b b' : BrokerState} {allowed : Bool}
    (h : x.map (fun v => (v, b)) = .ok (allowed, b')) : x = .ok allowed := by
  cases x with
  | error e => cases h
  | ok v => rw [(Prod.mk.inj (Except.ok.inj h)).1]

/-- A verdict that does not need more than two looks. -/
lemma filteredOnce_of_judge (hm : lib.demarshal msg = some m) (hstorable : Storable dbusMaxArgLen m.args)
    {req : DbusMessage} {client : Bool} (hread : RulesRead w b req domid)
    (hwithin : ∀ n, isRequestAllowedWithin (n + 2) w b (decoded lib m) isClient domid =
      (judge (ruleVerdict w b req client domid) false (rulesInForce w b domid)).map fun v => (v, brokerAfter w b domid))
    (hslots : m.interface = some propertiesInterface → (domainInForce w b domid).isSome = true →
      SlotsStored m (decoded lib m))
    (hdenied : m.interface = some propertiesInterface → ¬ CarriesProperty m →
      ¬ RulesAllow w b req domid client) : FilteredOnce lib w b msg m isClient domid := by
  obtain ⟨v,hv⟩ := ((answered_iff w b req client domid).mpr hread).judge false
  have hvalue : ∀ n, isRequestAllowedWithin (n + 2) w b (decoded lib m) isClient domid = .ok (v, brokerAfter w b domid) := by
    intro n
    rw [hwithin n, hv]
    rfl
  refine ⟨m.type,decoded lib m,v,_,(convertRawDbus_eq_ok_iff hm).mpr ⟨hstorable,rfl,rfl⟩,hvalue 1,hvalue 0,hslots,?_⟩
  intro hprop hno
  have hdeny := hdenied hprop hno
  rw [RulesAllow, ← lastMatch_of_judge hv (by simp)] at hdeny
  simpa using hdeny

/-- A message is filtered as it should be exactly when its arguments can be stored, the rules have strings to
compare, a known domain's message has no interface or keeps it, and, on the properties interface, the request that is
made up is one of strings the message carries, about another interface, and not let through for a message that
carries no property. A string of a message that does not keep them is none to compare. -/
theorem filtered_once_iff (hm : lib.demarshal msg = some m) :
    FilteredOnce lib w b msg m isClient domid ↔
      Storable dbusMaxArgLen m.args ∧ RulesRead w b (decoded lib m) domid ∧
        ((domainInForce w b domid).isSome = true → m.interface = none ∨ lib.keeps m = true) ∧
        (m.interface = some propertiesInterface → PropertyChecked lib w b m isClient domid) := by
  constructor
  · rintro ⟨ret,dmsg,allowed,b',hconvert,-,hwithin,hslots,hdenied⟩
    obtain ⟨hstorable,-,hdmsg⟩ := (convertRawDbus_eq_ok_iff hm).mp hconvert
    obtain rfl := Option.some.inj hdmsg
    obtain ⟨hread,hnext⟩ := (returns_within_iff 1 w b (decoded lib m) isClient domid).mp ⟨_,hwithin⟩
    have hkept : (domainInForce w b domid).isSome = true → m.interface = none ∨ lib.keeps m = true := by
      intro hd
      obtain ⟨i,hi,-⟩ := hnext hd
      exact (header_eq_live_iff.mp hi).imp And.left And.right
    refine ⟨hstorable,hread,hkept,fun hprop => ⟨fun hd => ?_,fun hd hno hallow => ?_⟩⟩
    · have hkeeps : lib.keeps m = true := (hkept hd).resolve_left (by simp [hprop])
      obtain ⟨i,name,htouches⟩ := (slotsStored_decoded_iff hprop hkeeps).mp (hslots hprop hd)
      obtain ⟨hne,htouched⟩ := htouches.ne_of_within hd ⟨_,hwithin⟩
      refine ⟨i,name,htouches,hne,htouched,fun hno hallow => ?_⟩
      rw [htouches.within hd hne hread 0] at hwithin
      have hallowed := (lastMatch_of_judge (eq_ok_of_map hwithin) (by simp)).mpr hallow
      rw [hdenied hprop hno] at hallowed
      cases hallowed
    · rw [within_of_unknown hd 1] at hwithin
      have hallowed := (lastMatch_of_judge (eq_ok_of_map hwithin) (by simp)).mpr hallow
      rw [hdenied hprop hno] at hallowed
      cases hallowed
  · rintro ⟨hstorable,hread,hkept,hchecked⟩
    cases hd : (domainInForce w b domid).isSome with
    | false =>
      refine filteredOnce_of_judge hm hstorable hread (fun n => within_of_unknown hd (n + 1)) (fun _ hd' => ?_)
        fun hprop => (hchecked hprop).2 hd
      rw [hd] at hd'
      cases hd'
    | true =>
      by_cases hprop : m.interface = some propertiesInterface
      · obtain ⟨i,name,htouches,hne,htouched,hdenied⟩ := (hchecked hprop).1 hd
        have hkeeps : lib.keeps m = true := (hkept hd).resolve_left (by simp [hprop])
        exact filteredOnce_of_judge hm hstorable htouched (fun n => htouches.within hd hne hread n)
          (fun _ _ => (slotsStored_decoded_iff hprop hkeeps).mpr ⟨i,name,htouches⟩) fun _ => hdenied
      · obtain ⟨i,hi,hne⟩ : ∃ i, (decoded lib m).interface = .live i ∧ i ≠ propertiesInterface := by
          rcases hkept hd with hnone | hkeeps
          · exact ⟨"NULL",header_eq_live_iff.mpr (.inl ⟨hnone,rfl⟩),by decide⟩
          · refine ⟨_,header_eq_of_keeps hkeeps _ _,fun h => ?_⟩
            cases hinterface : m.interface with
            | none =>
              rw [hinterface] at h
              revert h
              decide
            | some i =>
              rw [hinterface] at h hprop
              exact hprop (congrArg some h)
        exact filteredOnce_of_judge hm hstorable hread
          (fun n => isRequestAllowedWithin_eq_judge w b (decoded lib m) isClient domid (n + 1) hi hne)
          (fun h => absurd h hprop) fun h => absurd h hprop

end Rewriting

/-- A library that reads every byte sequence as this message, and that leaves the strings where they were, or not. -/
def fixedLibdbus (keeps : Bool) (m : RawMessage) : Libdbus := ⟨fun msg => msg.length, fun _ => some m, fun _ => keeps⟩

/-- A call on the properties interface. -/
def propertyCall (member : String) (args : List RawArg) : RawMessage where
  type := 1
  destination := some "org.a"
  path := some "/"
  interface := some propertiesInterface
  member := some member
  args := args

/-- A call that nobody looks into: the policy file allows everything, and there is no database. -/
def openBroker : BrokerState := ⟨some ⟨false, [{ policy := true, all := true }], []⟩, fun _ => none⟩

/-- The call is filtered as it should be where the message keeps its strings, and any other call where nothing of it
is read. -/
theorem filtered_once_get :
    FilteredOnce (fixedLibdbus true (propertyCall "Get" [.string "org.a", .string "x"])) sampleWorld sampleBroker []
      (propertyCall "Get" [.string "org.a", .string "x"]) true 3 ∧
    FilteredOnce (fixedLibdbus false { propertyCall "Ping" [] with interface := some "org.b" }) sampleWorld openBroker []
      { propertyCall "Ping" [] with interface := some "org.b" } true 3 := by
  constructor
  · refine (filtered_once_iff rfl).mpr ⟨⟨by simp [propertyCall],by decide⟩,?_,fun _ => .inr rfl,
      fun _ => ⟨fun _ => ?_,fun hd => ?_⟩⟩
    · exact fun r hr => readable_of_sound _ _ _ ⟨_,_,_,_,rfl,rfl,rfl,rfl⟩ (sound_sampleRules r hr)
    · refine ⟨"org.a","x",⟨rfl,rfl,.inr ⟨⟨"Get",rfl,by decide⟩,rfl⟩⟩,by decide,?_,fun hno => absurd ?_ hno⟩
      · exact fun r hr => readable_of_sound _ _ _ ⟨_,_,_,_,rfl,rfl,rfl,rfl⟩ (sound_sampleRules r hr)
      · exact ⟨⟨"org.a",rfl⟩,.inr ⟨"x",rfl⟩⟩
    · have hknown : (domainInForce sampleWorld sampleBroker 3).isSome = true := by decide +kernel
      rw [hknown] at hd
      cases hd
  · have hrules : rulesInForce sampleWorld openBroker 3 = [{ policy := true, all := true }] := by decide +kernel
    have hunknown : (domainInForce sampleWorld openBroker 3).isSome = false := by decide +kernel
    refine (filtered_once_iff rfl).mpr ⟨⟨List.not_mem_nil,Nat.zero_le _⟩,?_,fun hd => ?_,fun hprop => ?_⟩
    · rw [RulesRead, hrules, List.forall_mem_singleton]
      exact .inr (.inl rfl)
    · rw [hunknown] at hd
      cases hd
    · exact absurd (Option.some.inj hprop) (by decide)

/-- What the filter compares of a message that was given back is no longer there. For a property of the properties
interface itself it reads slots that were never set, when it makes up a request for the second time. And without a
database a property request passes that carries no property. -/
theorem filtered_twice :
    ¬ FilteredOnce (fixedLibdbus false (propertyCall "Get" [.string "org.a", .string "x"])) sampleWorld sampleBroker []
      (propertyCall "Get" [.string "org.a", .string "x"]) true 3 ∧
    ¬ FilteredOnce (fixedLibdbus true (propertyCall "Get" [.string propertiesInterface, .string "x"])) sampleWorld
      sampleBroker [] (propertyCall "Get" [.string propertiesInterface, .string "x"]) true 3 ∧
    ¬ FilteredOnce (fixedLibdbus true (propertyCall "Get" [])) sampleWorld propertiesBroker [] (propertyCall "Get" [])
      true 3 := by
  have hgone : verdict sampleWorld sampleBroker (decoded (fixedLibdbus false (propertyCall "Get" [.string "org.a",
      .string "x"])) (propertyCall "Get" [.string "org.a", .string "x"])) true 3 = .error .wild := by decide +kernel
  have hwild : verdict sampleWorld sampleBroker (decoded (fixedLibdbus true (propertyCall "Get" [.string
      propertiesInterface, .string "x"])) (propertyCall "Get" [.string propertiesInterface, .string "x"])) true 3 =
        .error .wild := by decide +kernel
  have hpasses : verdict sampleWorld propertiesBroker (decoded (fixedLibdbus true (propertyCall "Get" []))
      (propertyCall "Get" [])) true 3 = .ok true := by decide +kernel
  have hstops : ∀ {keeps m e}, verdict sampleWorld sampleBroker (decoded (fixedLibdbus keeps m) m) true 3 = .error e →
      ¬ FilteredOnce (fixedLibdbus keeps m) sampleWorld sampleBroker [] m true 3 := by
    rintro keeps m e he ⟨ret,dmsg,allowed,b',hconvert,hallowed,-⟩
    obtain ⟨-,-,hdmsg⟩ := (convertRawDbus_eq_ok_iff rfl).mp hconvert
    obtain rfl := Option.some.inj hdmsg
    rw [verdict_eq_ok_iff.mpr ⟨b',hallowed⟩] at he
    cases he
  refine ⟨hstops hgone,hstops hwild,?_⟩
  rintro ⟨ret,dmsg,allowed,b',hconvert,hallowed,-,-,hdenied⟩
  obtain ⟨-,-,hdmsg⟩ := (convertRawDbus_eq_ok_iff rfl).mp hconvert
  obtain rfl := Option.some.inj hdmsg
  rw [verdict_eq_ok_iff.mpr ⟨b',hallowed⟩, hdenied rfl (fun h => by obtain ⟨⟨i,hi⟩,-⟩ := h; cases hi)] at hpasses
  cases hpasses

end Xctools.Broker
