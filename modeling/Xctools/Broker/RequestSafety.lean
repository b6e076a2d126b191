import Xctools.Broker.Json

/-! Which websocket requests the broker survives. Each stage of the path from the JSON text to the
call on the bus comes to its end under a condition on what it is given, and not otherwise. -/
namespace Xctools.Broker
open Machine

section Filter

/-- Every rule in force can be held against the request, and a property request names, as a string,
another interface that can be held against the rules too. -/
def FilterReads (w : World) (b : BrokerState) (dmsg : DbusMessage) (domid : ℕ) : Prop :=
  (∀ r ∈ rulesInForce w b domid, Readable w b.database dmsg (UInt16.ofNat domid) r) ∧
  ((domainInForce w b domid).isSome → ∃ i, dmsg.interface = .live i ∧ (i = propertiesInterface →
    ∃ req j, propertyReq dmsg = .ok req ∧ req.interface = .live j ∧ j ≠ propertiesInterface ∧
      ∀ r ∈ rulesInForce w b domid, Readable w b.database req (UInt16.ofNat domid) r))

lemma returns_within_iff (n : ℕ) (w : World) (b : BrokerState) (dmsg : DbusMessage)
    (isClient : Bool) (domid : ℕ) :
    Returns (isRequestAllowedWithin (n + 1) w b dmsg isClient domid) ↔
      (∀ r ∈ rulesInForce w b domid, Readable w b.database dmsg (UInt16.ofNat domid) r) ∧
      ((domainInForce w b domid).isSome → ∃ i, dmsg.interface = .live i ∧ (i = propertiesInterface →
        ∃ req, propertyReq dmsg = .ok req ∧
          Returns (isRequestAllowedWithin n w (brokerAfter w b domid) req true domid))) := by
  rw [isRequestAllowedWithin_succ, ← answered_iff w b dmsg isClient domid,
    ← returns_judge_iff (d := false)]
  cases judge (ruleVerdict w b dmsg isClient domid) false (rulesInForce w b domid) with
  | error e => simp
  | ok allowed =>
    simp only [ok_bind, returns_ok, true_and]
    by_cases hd : (domainInForce w b domid).isSome
    · rw [if_pos hd]
      cases hi : dmsg.interface with
      | null => simp [hd]
      | wild => simp [hd]
      | live i =>
        by_cases hp : i = propertiesInterface
        · simp [hd, hp, returns_bind_iff]
        · simp [hd, hp]
    · simp [hd]

/-- The filter comes to a verdict exactly when all it compares are strings. -/
lemma returns_isRequestAllowed_iff (w : World) (b : BrokerState) (dmsg : DbusMessage)
    (isClient : Bool) (domid : ℕ) :
    Returns (isRequestAllowed w b dmsg isClient domid) ↔ FilterReads w b dmsg domid := by
  have hsecond : ∀ req, (domainInForce w b domid).isSome → propertyReq dmsg = .ok req →
      (Returns (isRequestAllowedWithin 2 w (brokerAfter w b domid) req true domid) ↔
        ∃ j, req.interface = .live j ∧ j ≠ propertiesInterface ∧
          ∀ r ∈ rulesInForce w b domid, Readable w b.database req (UInt16.ofNat domid) r) := by
    intro req hd hreq
    -- the request made up at the second level has no interface to read at the third
    have hthird : ∀ req' b', propertyReq req = .ok req' → (domainInForce w b' domid).isSome →
        ¬ Returns (isRequestAllowedWithin 1 w b' req' true domid) := by
      intro req' b' hreq' hd' hret
      obtain ⟨i,hi,-⟩ := ((returns_within_iff 0 w b' req' true domid).mp hret).2 hd'
      rw [(propertyReq_args req hreq').1, (propertyReq_args dmsg hreq).2] at hi
      cases hi
    rw [returns_within_iff 1]
    simp only [rulesInForce_brokerAfter, domainInForce_brokerAfter, brokerAfter_database, hd,
      forall_const]
    constructor
    · rintro ⟨hrules,j,hj,hnext⟩
      refine ⟨j,hj,fun heq => ?_,hrules⟩
      obtain ⟨req',hreq',hret⟩ := hnext heq
      exact hthird req' _ hreq' (by simpa using hd) hret
    · rintro ⟨j,hj,hne,hrules⟩
      exact ⟨hrules,j,hj,fun heq => absurd heq hne⟩
  rw [isRequestAllowed, returns_within_iff 2, FilterReads]
  refine and_congr_right fun _ => forall_congr' fun hd => exists_congr fun i =>
    and_congr_right fun _ => forall_congr' fun _ => exists_congr fun req => ?_
  constructor
  · rintro ⟨hreq,hret⟩
    obtain ⟨j,hj,hne,hrules⟩ := (hsecond req hd hreq).mp hret
    exact ⟨j,hreq,hj,hne,hrules⟩
  · rintro ⟨j,hreq,hj,hne,hrules⟩
    exact ⟨hreq,(hsecond req hd hreq).mpr ⟨j,hj,hne,hrules⟩⟩

/-- The request the rules have the last word on: of a property request to a known domain, the one
made up for the property. -/
def judgedRequest (w : World) (b : BrokerState) (dmsg : DbusMessage) (domid : ℕ) : DbusMessage :=
  if (domainInForce w b domid).isSome ∧ dmsg.interface = .live propertiesInterface then
    (propertyReq dmsg).toOption.getD dmsg
  else dmsg

/-- The last rule that matches the request allows it. -/
def LetThrough (w : World) (b : BrokerState) (dmsg : DbusMessage) (domid : ℕ) : Prop :=
  LastMatch (ruleVerdict w b (judgedRequest w b dmsg domid) true domid) (rulesInForce w b domid) true

/-- The filter's verdict is what the last matching rule says. -/
lemma allowed_iff_letThrough {w : World} {b b' : BrokerState} {dmsg : DbusMessage} {domid : ℕ}
    {v : Bool} (h : isRequestAllowed w b dmsg true domid = .ok (v, b')) :
    v = true ↔ LetThrough w b dmsg domid := by
  obtain ⟨-,hprop⟩ := (returns_isRequestAllowed_iff w b dmsg true domid).mp ⟨_,h⟩
  rw [isRequestAllowed, isRequestAllowedWithin_succ] at h
  obtain ⟨a,ha,h⟩ := bind_eq_ok.mp h
  by_cases hd : (domainInForce w b domid).isSome
  · obtain ⟨i,hi,hreq⟩ := hprop hd
    rw [if_pos hd, hi, Ptr.read_live, ok_bind] at h
    by_cases hp : i = propertiesInterface
    · obtain ⟨req,j,hr,hj,hne,-⟩ := hreq hp
      have hjudged : judgedRequest w b dmsg domid = req := by
        rw [judgedRequest, if_pos ⟨hd,by rw [hi, hp]⟩, hr]
        rfl
      rw [if_pos hp, hr, ok_bind, isRequestAllowedWithin_eq_judge _ _ _ _ _ 1 hj hne,
        ruleVerdict_brokerAfter, rulesInForce_brokerAfter] at h
      rw [LetThrough, hjudged]
      cases hv : judge (ruleVerdict w b req true domid) false (rulesInForce w b domid) with
      | error e =>
        rw [hv] at h
        cases h
      | ok v' =>
        rw [hv] at h
        obtain ⟨rfl,-⟩ := Prod.mk.inj (Except.ok.inj h)
        exact lastMatch_of_judge hv (by simp)
    · have hjudged : judgedRequest w b dmsg domid = dmsg :=
        if_neg fun hc => hp (by simpa [hi] using hc.2)
      rw [if_neg hp] at h
      obtain ⟨rfl,-⟩ := Prod.mk.inj (Except.ok.inj h)
      rw [LetThrough, hjudged]
      exact lastMatch_of_judge ha (by simp)
  · have hjudged : judgedRequest w b dmsg domid = dmsg := if_neg fun hc => hd hc.1
    rw [if_neg hd] at h
    obtain ⟨rfl,-⟩ := Prod.mk.inj (Except.ok.inj h)
    rw [LetThrough, hjudged]
    exact lastMatch_of_judge ha (by simp)

end Filter

section Conversion
variable (bus : Bus)

/-- The field is absent or is something else than JSON's null. -/
def NotNull (jobj : Json) (field : String) : Prop := jobj.getEx field ≠ some .null

/-- The text of a field; NULL when there is none. -/
def nameOf (jobj : Json) (field : String) : CStr :=
  match jobj.getEx field with
  | none => .null
  | some jfield => .live (bus.getString jfield)

lemma getJsonStrObj_eq {jobj : Json} {field : String} (h : NotNull jobj field) :
    getJsonStrObj bus jobj field = .ok (nameOf bus jobj field) := by
  unfold getJsonStrObj nameOf
  cases hg : jobj.getEx field with
  | none => rfl
  | some jfield =>
    cases jfield with
    | null => exact absurd hg h
    | _ => rfl

lemma notNull_of_getJsonStrObj {jobj : Json} {field : String} {name : CStr}
    (h : getJsonStrObj bus jobj field = .ok name) :
    NotNull jobj field ∧ name = nameOf bus jobj field := by
  have hn : NotNull jobj field := by
    intro hg
    rw [getJsonStrObj, hg] at h
    cases h
  rw [getJsonStrObj_eq bus hn] at h
  exact ⟨hn,(Except.ok.inj h).symm⟩

lemma nameOf_isSet (jobj : Json) (field : String) :
    (nameOf bus jobj field).IsSet ↔ (jobj.getEx field).isSome := by
  unfold nameOf
  cases jobj.getEx field <;> simp

/-- The text of a field that is there. -/
def fieldText (jobj : Json) (field : String) : String :=
  match jobj.getEx field with
  | none => ""
  | some jfield => bus.getString jfield

/-- The names of a request that has them. -/
def namesOf (jobj : Json) : Names where
  destination := nameOf bus jobj "destination"
  type := if (jobj.getEx "destination").isSome then .null else nameOf bus jobj "type"
  interface := fieldText bus jobj "interface"
  path := fieldText bus jobj "path"
  member := fieldText bus jobj "method"

/-- The interface, the path and the method are there. -/
def Named (jobj : Json) : Prop :=
  (jobj.getEx "interface").isSome ∧ (jobj.getEx "path").isSome ∧ (jobj.getEx "method").isSome

instance (jobj : Json) : Decidable (Named jobj) := inferInstanceAs (Decidable (_ ∧ _ ∧ _))

/-- No name that is looked up is JSON's null: a missing one ends the search. -/
def NamesNotNull (jobj : Json) : Prop :=
  NotNull jobj "destination" ∧ (jobj.getEx "destination" = none → NotNull jobj "type") ∧
  NotNull jobj "interface" ∧ ((jobj.getEx "interface").isSome → NotNull jobj "path" ∧
    ((jobj.getEx "path").isSome → NotNull jobj "method"))

lemma nameOf_of_isSome {jobj : Json} {field : String} (h : (jobj.getEx field).isSome) :
    nameOf bus jobj field = .live (fieldText bus jobj field) := by
  obtain ⟨jfield,hj⟩ := Option.isSome_iff_exists.mp h
  simp [nameOf, fieldText, hj]

lemma nameOf_of_isNone {jobj : Json} {field : String} (h : ¬ (jobj.getEx field).isSome) :
    nameOf bus jobj field = .null := by
  have hg : jobj.getEx field = none := by simpa using h
  rw [nameOf, hg]

lemma getType_eq_ok_iff {jobj : Json} {type : CStr} :
    getType bus jobj (nameOf bus jobj "destination") = .ok type ↔
      (jobj.getEx "destination" = none → NotNull jobj "type") ∧ type = (namesOf bus jobj).type := by
  unfold getType
  simp only [nameOf_isSet]
  cases hd : jobj.getEx "destination" with
  | some jfield => simp [namesOf, hd, eq_comm]
  | none =>
    simp only [Option.isSome_none, Bool.false_eq_true, if_false, namesOf, hd, forall_const]
    constructor
    · exact notNull_of_getJsonStrObj bus
    · rintro ⟨hn,rfl⟩
      exact getJsonStrObj_eq bus hn

/-- The look-up of the names of a request. -/
lemma getNames_eq {jobj : Json} (h : NamesNotNull jobj) :
    getNames bus jobj = .ok (if Named jobj then some (namesOf bus jobj) else none) := by
  obtain ⟨hd,ht,hi,hrest⟩ := h
  rw [getNames, getJsonStrObj_eq bus hd, ok_bind, (getType_eq_ok_iff bus).mpr ⟨ht,rfl⟩, ok_bind,
    getJsonStrObj_eq bus hi, ok_bind]
  by_cases hi' : (jobj.getEx "interface").isSome
  · obtain ⟨hp,hm⟩ := hrest hi'
    rw [nameOf_of_isSome bus hi', getJsonStrObj_eq bus hp]
    by_cases hp' : (jobj.getEx "path").isSome
    · rw [nameOf_of_isSome bus hp', getJsonStrObj_eq bus (hm hp')]
      by_cases hm' : (jobj.getEx "method").isSome
      · rw [nameOf_of_isSome bus hm', if_pos ⟨hi',hp',hm'⟩]
        rfl
      · rw [nameOf_of_isNone bus hm', if_neg fun hn => hm' hn.2.2]
        rfl
    · rw [nameOf_of_isNone bus hp', if_neg fun hn => hp' hn.2.1]
      rfl
  · rw [nameOf_of_isNone bus hi', if_neg fun hn => hi' hn.1]
    rfl

lemma namesNotNull_of_returns {jobj : Json} (h : Returns (getNames bus jobj)) : NamesNotNull jobj := by
  obtain ⟨r,h⟩ := h
  obtain ⟨d,hd,h⟩ := bind_eq_ok.mp h
  obtain ⟨hdest,rfl⟩ := notNull_of_getJsonStrObj bus hd
  obtain ⟨t,ht,h⟩ := bind_eq_ok.mp h
  obtain ⟨i,hi,h⟩ := bind_eq_ok.mp h
  obtain ⟨hiface,rfl⟩ := notNull_of_getJsonStrObj bus hi
  refine ⟨hdest,((getType_eq_ok_iff bus).mp ht).1,hiface,fun hi' => ?_⟩
  rw [nameOf_of_isSome bus hi'] at h
  obtain ⟨p,hp,h⟩ := bind_eq_ok.mp h
  obtain ⟨hpath,rfl⟩ := notNull_of_getJsonStrObj bus hp
  refine ⟨hpath,fun hp' => ?_⟩
  rw [nameOf_of_isSome bus hp'] at h
  obtain ⟨m,hm,-⟩ := bind_eq_ok.mp h
  exact (notNull_of_getJsonStrObj bus hm).1

/-- The arguments fit their table, and those that take a letter fit the signature's buffer. -/
def ArgsFit (sig : Signature) (items : List Json) : Prop :=
  items.length ≤ dbusArgs ∧ items.countP (fun j => ¬ j.isNull) ≤ sig.size

/-- The request goes by the signature of `network-daemon`'s signals. -/
def Names.Undirected (names : Names) : Prop := ¬ names.destination.IsSet ∧ names.type.IsSet

instance (names : Names) : Decidable names.Undirected := inferInstanceAs (Decidable (_ ∧ _))

/-- The name is there, and libdbus takes it. -/
def NameTaken (valid : String → Bool) (name : CStr) : Prop := ∃ s, name = .live s ∧ valid s = true

/-- libdbus takes the names of where a request goes to. -/
def TargetTaken (names : Names) : Prop :=
  (names.destination.IsSet → NameTaken bus.isBusName names.destination) ∧ bus.isPath names.path = true

/-- The target can be asked, and the introspected text and the letters found in it fit their buffers. -/
def SignatureFits (names : Names) : Prop :=
  names.Undirected ∨ TargetTaken bus names ∧
    ∀ reply, bus.introspection names.destination (.live names.path) = some reply → reply.utf8ByteSize < dbusIntrospectMax ∧
      (retrieveXmlSignature bus reply names.interface names.member).length < xmlSignatureMax

/-- The signature a request goes by. -/
def signatureOf (names : Names) : Option Signature :=
  if names.Undirected then some ⟨['u', 'u'], 3⟩
  else (bus.introspection names.destination (.live names.path)).map fun reply =>
    ⟨retrieveXmlSignature bus reply names.interface names.member, xmlSignatureMax⟩

lemma returns_checkName_iff {valid : String → Bool} {name : CStr} :
    Returns (checkName valid name) ↔ NameTaken valid name := by
  unfold checkName NameTaken
  cases name with
  | null => simp
  | wild => simp
  | live s =>
    rw [Ptr.read_live, ok_bind]
    split_ifs with hvalid
    · simp [hvalid]
    · simp [hvalid]

lemma returns_checkSet_iff {valid : String → Bool} {name : CStr} :
    Returns (checkSet valid name) ↔ (name.IsSet → NameTaken valid name) := by
  unfold checkSet
  split_ifs with hset
  · rw [returns_checkName_iff, imp_iff_right hset]
  · exact iff_of_true (returns_ok _) fun h => absurd h hset

lemma returns_unit_bind_iff {α : Type} {x : Outcome Unit} {y : Outcome α} :
    Returns (x >>= fun _ => y) ↔ Returns x ∧ Returns y := by
  rw [returns_bind_iff]
  exact ⟨fun ⟨u,hx,hy⟩ => ⟨⟨u,hx⟩,hy⟩,fun ⟨⟨u,hx⟩,hy⟩ => ⟨u,hx,hy⟩⟩

/-- A message is made of names that libdbus takes. -/
lemma returns_newMessage_iff {dmsg : DbusMessage} {path interface member : String} (hpath : dmsg.path = .live path)
    (hinterface : dmsg.interface = .live interface) (hmember : dmsg.member = .live member) :
    Returns (bus.newMessage dmsg) ↔ (dmsg.destination.IsSet → NameTaken bus.isBusName dmsg.destination) ∧
      bus.isPath path = true ∧ bus.isInterface interface = true ∧ bus.isMember member = true := by
  have hlive : ∀ (valid : String → Bool) (s : String), Returns (checkName valid (.live s)) ↔ valid s = true := by
    intro valid s
    simp [returns_checkName_iff, NameTaken]
  have hset : checkSet bus.isInterface (.live interface) = checkName bus.isInterface (.live interface) :=
    if_pos (Ptr.isSet_live _)
  have hiface : (if dmsg.destination.IsSet then checkSet else checkName) bus.isInterface (.live interface) =
      checkName bus.isInterface (.live interface) := by
    split_ifs
    · exact hset
    · rfl
  rw [Bus.newMessage, hpath, hinterface, hmember, hiface, returns_unit_bind_iff, returns_unit_bind_iff,
    returns_unit_bind_iff, returns_checkSet_iff, hlive, hlive, hlive]

/-- The target of a request is asked for its signature where libdbus takes its names. -/
lemma returns_introspectMessage_iff {names : Names} :
    Returns (bus.newMessage (introspectMessage names.destination (.live names.path))) ↔ TargetTaken bus names := by
  rw [returns_newMessage_iff bus rfl rfl rfl, TargetTaken]
  simp [bus.introspectable, introspectMessage]

lemma argSignature_eq_ok_iff {names : Names} {r : Option Signature} :
    argSignature bus names = .ok r ↔ SignatureFits bus names ∧ r = signatureOf bus names := by
  unfold argSignature SignatureFits signatureOf
  by_cases hu : names.Undirected
  · rw [if_pos (by exact hu), if_pos hu]
    simp [hu, eq_comm]
  rw [if_neg (by exact hu), if_neg hu, dbusIntrospect, ← returns_introspectMessage_iff]
  cases bus.newMessage (introspectMessage names.destination (.live names.path)) with
  | error e => simp [hu]
  | ok u =>
    rw [ok_bind]
    cases bus.introspection names.destination (.live names.path) with
    | none => simp [eq_comm]
    | some reply =>
      simp only [hu, false_or, Option.some.injEq, forall_eq', Option.map_some, returns_ok, true_and]
      split_ifs with h₁ h₂
      · simp [Nat.not_lt.mpr h₁]
      · simp [Nat.not_lt.mpr h₂]
      · simp [Nat.not_le.mp h₁, Nat.not_le.mp h₂, eq_comm]

end Conversion

section Stored
variable (js : JsonC) (bus : Bus)

/-- What is stored, from letter `k` of the signature on. -/
def storedOf (sig : Signature) : ℕ → List Json → List (Char × Slot)
  | _, [] => []
  | k, jarg :: jargs =>
    if jarg.isNull then ('\x00', .string "") :: storedOf sig k jargs
    else (jsonDbusTypes jarg, storeArg js bus (sig.letters[k]?.getD '\x00') jarg) :: storedOf sig (k + 1) jargs

/-- The letter an argument is stored by: as many letters in as there are arguments before it that are not
null. -/
def storedBy (sig : Signature) (items : List Json) (k : ℕ) : Char :=
  sig.letters[(items.take k).countP fun j => ¬ j.isNull]?.getD '\x00'

/-- What is stored for an argument: the type of its JSON value, and its slot. -/
def storedFor (sig : Signature) (items : List Json) (k : ℕ) (jarg : Json) : Char × Slot :=
  if jarg.isNull then ('\x00', .string "") else (jsonDbusTypes jarg, storeArg js bus (storedBy sig items k) jarg)

variable {js bus} {sig : Signature} {items : List Json}

lemma storeLoop_eq_ok_iff {k i : ℕ} {stored : List (Char × Slot)} (hi : i ≤ dbusArgs) (hk : k ≤ sig.size) :
    storeLoop js bus sig k i items = .ok stored ↔
      (i + items.length ≤ dbusArgs ∧ k + items.countP (fun j => ¬ j.isNull) ≤ sig.size) ∧
        stored = storedOf js bus sig k items := by
  induction items generalizing k i stored with
  | nil =>
    simp only [storeLoop, storedOf, Except.ok.injEq, List.length_nil, List.countP_nil, Nat.add_zero, hi,
      hk, and_self, true_and]
    exact eq_comm
  | cons jarg jargs ih =>
    rw [storeLoop, storedOf]
    by_cases hroom : dbusArgs ≤ i
    · have hno : ¬ (i + (jargs.length + 1) ≤ dbusArgs) := by omega
      simp [hroom, hno]
    rw [if_neg hroom]
    cases hnull : jarg.isNull with
    | true =>
      simp only [if_true, bind_eq_ok, ih (k := k) (i := i + 1) (by omega) hk, List.length_cons,
        List.countP_cons, hnull, pure_eq_ok, Except.ok.injEq]
      constructor
      · rintro ⟨_,⟨⟨h₁,h₂⟩,rfl⟩,rfl⟩
        exact ⟨⟨by omega,by simpa using h₂⟩,rfl⟩
      · rintro ⟨⟨h₁,h₂⟩,rfl⟩
        exact ⟨_,⟨⟨by omega,by simpa using h₂⟩,rfl⟩,rfl⟩
    | false =>
      simp only [Bool.false_eq_true, if_false, bind_eq_ok, List.length_cons, List.countP_cons, hnull,
        pure_eq_ok, Except.ok.injEq, Signature.read]
      by_cases hsize : k < sig.size
      · simp only [hsize, if_true, Except.ok.injEq, ih (k := k + 1) (i := i + 1) (by omega) hsize]
        constructor
        · rintro ⟨_,rfl,_,⟨⟨h₁,h₂⟩,rfl⟩,rfl⟩
          exact ⟨⟨by omega,by simp at h₂ ⊢; omega⟩,rfl⟩
        · rintro ⟨⟨h₁,h₂⟩,rfl⟩
          exact ⟨_,rfl,_,⟨⟨by omega,by simp at h₂ ⊢; omega⟩,rfl⟩,rfl⟩
      · have hno : ¬ (k + (jargs.countP (fun j => ¬ j.isNull) + 1) ≤ sig.size) := by omega
        simp [hsize]
        omega

lemma getElem?_storedOf (k j : ℕ) : (storedOf js bus sig k items)[j]? = items[j]?.map fun jarg =>
    if jarg.isNull then ('\x00', .string "")
    else (jsonDbusTypes jarg, storeArg js bus
      (sig.letters[k + (items.take j).countP fun j => ¬ j.isNull]?.getD '\x00') jarg) := by
  induction items generalizing k j with
  | nil => rfl
  | cons jarg jargs ih =>
    rw [storedOf]
    cases j with
    | zero => cases hnull : jarg.isNull <;> simp [hnull]
    | succ j =>
      cases hnull : jarg.isNull with
      | true => simp [ih, hnull]
      | false => simp [ih, hnull, Nat.add_assoc, Nat.add_comm 1]

/-- Every argument has its slot. -/
lemma getElem?_storedOf_zero (k : ℕ) :
    (storedOf js bus sig 0 items)[k]? = items[k]?.map (storedFor js bus sig items k) := by
  rw [getElem?_storedOf]
  simp only [Nat.zero_add]
  rfl

lemma length_storedOf (k : ℕ) : (storedOf js bus sig k items).length = items.length := by
  induction items generalizing k with
  | nil => rfl
  | cons jarg jargs ih =>
    rw [storedOf]
    split_ifs <;> simp [ih]

lemma storeJsonArgs_eq_ok_iff {names : Names} {jarray : Json} {r : Option (Signature × List (Char × Slot))} :
    storeJsonArgs js bus names jarray = .ok r ↔ SignatureFits bus names ∧
      (signatureOf bus names = none ∧ r = none ∨ ∃ sig items, signatureOf bus names = some sig ∧
        jarray = .array items ∧ ArgsFit sig items ∧ r = some (sig, storedOf js bus sig 0 items)) := by
  rw [storeJsonArgs, bind_eq_ok]
  simp only [argSignature_eq_ok_iff]
  constructor
  · rintro ⟨_,⟨hfits,rfl⟩,h⟩
    refine ⟨hfits,?_⟩
    cases hsig : signatureOf bus names with
    | none =>
      rw [hsig] at h
      exact .inl ⟨rfl,(Except.ok.inj h).symm⟩
    | some sig =>
      rw [hsig] at h
      cases jarray with
      | array items =>
        obtain ⟨stored,ha,h⟩ := bind_eq_ok.mp h
        obtain ⟨hargs,rfl⟩ := (storeLoop_eq_ok_iff (Nat.zero_le _) (Nat.zero_le _)).mp ha
        exact .inr ⟨sig,items,rfl,rfl,by simpa [ArgsFit] using hargs,(Except.ok.inj h).symm⟩
      | _ => cases h
  · rintro ⟨hfits,⟨hsig,rfl⟩ | ⟨sig,items,hsig,rfl,hargs,rfl⟩⟩
    · exact ⟨_,⟨hfits,rfl⟩,by rw [hsig]; rfl⟩
    · refine ⟨_,⟨hfits,rfl⟩,?_⟩
      have ha : storeLoop js bus sig 0 0 items = .ok (storedOf js bus sig 0 items) :=
        (storeLoop_eq_ok_iff (Nat.zero_le _) (Nat.zero_le _)).mpr ⟨by simpa [ArgsFit] using hargs,rfl⟩
      rw [hsig]
      simp only [ha]
      rfl

end Stored

section Call
variable (js : JsonC) (bus : Bus)

/-- The slot holds what is read of it for a type, and libdbus takes that. -/
def BasicFits (type : Char) : Slot → Prop
  | .null => False
  | .string s => type = 's' ∧ bus.isUtf8 s = true
  | .int v => type = 'u' ∨ type = 'i' ∨ type = 'b' ∧ (v = 0 ∨ v = 1)
  | .double _ => type = 'd'

/-- So it does for a letter of the signature. Nothing is read of a variant of an unknown type. -/
def SlotFits (letter jsonType : Char) (slot : Slot) : Prop :=
  letter ∈ ['s', 'u', 'i', 'b'] ∧ BasicFits bus letter slot ∨
    letter = 'v' ∧ (jsonType ∈ ['s', 'u', 'i', 'b', 'd'] → BasicFits bus jsonType slot)

/-- libdbus takes the names of a call, and for every argument there is a letter that fits what is stored for it. -/
def CallFits (names : Names) (sig : Signature) (items : List Json) : Prop :=
  TargetTaken bus names ∧ bus.isInterface names.interface = true ∧ bus.isMember names.member = true ∧
    ∀ k jarg, items[k]? = some jarg → ∃ letter, (sig.letters.takeWhile (· ≠ '\x00'))[k]? = some letter ∧
      SlotFits bus letter (storedFor js bus sig items k jarg).1 (storedFor js bus sig items k jarg).2

variable {bus} {letter jsonType : Char} {slot : Slot}

lemma returns_some_iff {α β : Type} {x : Outcome α} {f : α → β} :
    Returns (do return some (f (← x))) ↔ Returns x := by
  cases x <;> simp

lemma basicFits_string_iff :
    Returns slot.readString ∧ bus.takes 's' slot = true ↔ BasicFits bus 's' slot := by
  cases slot <;> simp [Slot.readString, Slot.text, Bus.takes, BasicFits]

lemma basicFits_number_iff {type : Char} (h : type = 'i' ∨ type = 'u') :
    Returns slot.readInt ∧ bus.takes type slot = true ↔ BasicFits bus type slot := by
  rcases h with rfl | rfl <;> cases slot <;> simp [Slot.readInt, Bus.takes, BasicFits]

lemma basicFits_boolean_iff :
    Returns slot.readInt ∧ bus.takes 'b' slot = true ↔ BasicFits bus 'b' slot := by
  cases slot <;> simp [Slot.readInt, Bus.takes, BasicFits]

lemma basicFits_double_iff :
    Returns slot.readDouble ∧ bus.takes 'd' slot = true ↔ BasicFits bus 'd' slot := by
  cases slot <;> simp [Slot.readDouble, Bus.takes, BasicFits]

/-- A variant goes by the type of the JSON value, if that is known. -/
lemma returns_appendVariant_iff : Returns (appendVariant jsonType slot) ∧ bus.takes jsonType slot = true ↔
    (jsonType ∈ ['s', 'u', 'i', 'b', 'd'] → BasicFits bus jsonType slot) := by
  rw [appendVariant]
  split_ifs with hi hu hb hs hd
  · rw [returns_some_iff, basicFits_number_iff (.inl hi), imp_iff_right (by simp [hi])]
  · rw [returns_some_iff, basicFits_number_iff (.inr hu), imp_iff_right (by simp [hu])]
  · rw [returns_some_iff, hb, basicFits_boolean_iff, imp_iff_right (by simp)]
  · rw [returns_some_iff, hs, basicFits_string_iff, imp_iff_right (by simp)]
  · rw [returns_some_iff, hd, basicFits_double_iff, imp_iff_right (by simp)]
  · refine iff_of_true ⟨returns_ok _,?_⟩ fun h => ?_
    · cases slot <;> simp [Bus.takes, hs, hb]
    · simp [hi, hu, hb, hs, hd] at h

/-- Of the letters only `s`, `u`, `i`, `b` and `v` are known. -/
lemma returns_sendArg_iff : (Returns (sendArg letter jsonType slot) ∧
    bus.takes (if letter = 'v' then jsonType else letter) slot = true) ↔ SlotFits bus letter jsonType slot := by
  by_cases hv : letter = 'v'
  · rw [if_pos hv, hv, sendArg]
    simp [returns_appendVariant_iff, SlotFits]
  rw [if_neg hv, sendArg, SlotFits]
  simp only [hv, if_false, false_and, or_false]
  split_ifs with hs hu hi hb
  · rw [returns_some_iff, hs, basicFits_string_iff, and_iff_right (by simp)]
  · rw [returns_some_iff, basicFits_number_iff (.inr hu), and_iff_right (by simp [hu])]
  · rw [returns_some_iff, basicFits_number_iff (.inl hi), and_iff_right (by simp [hi])]
  · rw [returns_some_iff, hb, basicFits_boolean_iff, and_iff_right (by simp)]
  · exact iff_of_false (fun h => not_returns_error _ h.1) fun h => by simp [hs, hu, hi, hb] at h

lemma returns_appendArg_iff : Returns (appendArg bus letter jsonType slot) ↔ SlotFits bus letter jsonType slot := by
  rw [appendArg, ← returns_sendArg_iff, returns_bind_iff]
  cases bus.takes (if letter = 'v' then jsonType else letter) slot with
  | true =>
    simp only [if_true, and_true]
    exact ⟨fun ⟨value,hvalue,_⟩ => ⟨value,hvalue⟩,fun ⟨value,hvalue⟩ => ⟨value,hvalue,returns_ok _⟩⟩
  | false => simp

/-- There is no letter past the end that a slot would fit. -/
lemma slotFits_getD_iff {letters : List Char} {k : ℕ} : SlotFits bus (letters[k]?.getD '\x00') jsonType slot ↔
    ∃ letter, letters[k]? = some letter ∧ SlotFits bus letter jsonType slot := by
  cases letters[k]? with
  | none => simp [SlotFits]
  | some letter => simp

variable (bus)

/-- `make_json_request` comes back for `Hello` and for calls that fit. -/
lemma returns_makeJsonRequest_iff {names : Names} {sig : Signature} {items : List Json} :
    Returns (makeJsonRequest bus (jsonRequest names sig (storedOf js bus sig 0 items))) ↔
      (names.member ≠ "Hello" → CallFits js bus names sig items) := by
  have hmember : (jsonRequest names sig (storedOf js bus sig 0 items)).dmsg.member = .live names.member := rfl
  have hnames : Returns (bus.newMessage (jsonRequest names sig (storedOf js bus sig 0 items)).dmsg) ↔
      TargetTaken bus names ∧ bus.isInterface names.interface = true ∧ bus.isMember names.member = true := by
    rw [returns_newMessage_iff bus rfl rfl rfl, TargetTaken, and_assoc]
    rfl
  rw [makeJsonRequest, hmember, Ptr.read_live, ok_bind]
  by_cases hhello : names.member = "Hello"
  · simp [hhello]
  rw [if_neg hhello, imp_iff_right hhello, makeDbusCall, returns_unit_bind_iff, hnames, CallFits, and_assoc, and_assoc]
  simp only [pure_eq_ok, returns_bind_ok, returns_mapM_iff, List.mem_range, returns_appendArg_iff, slotFits_getD_iff]
  refine and_congr_right fun _ => and_congr_right fun _ => and_congr_right fun _ => forall_congr' fun k => ?_
  have hstored : (storedOf js bus sig 0 items)[k]? = items[k]?.map (storedFor js bus sig items k) :=
    getElem?_storedOf_zero k
  simp only [jsonRequest, jsonMessage, List.getElem?_map, hstored, length_storedOf]
  cases hjarg : items[k]? with
  | none => simp [Nat.not_lt.mpr (List.getElem?_eq_none_iff.mp hjarg)]
  | some jarg => simp [(List.getElem?_eq_some_iff.mp hjarg).1]

end Call

section Handler
variable (js : JsonC) (bus : Bus) (w : World) (b : BrokerState) (domid : ℕ)

/-- The filter comes to a verdict on the request, and the call of one it lets through fits. -/
def RequestHarmless (names : Names) (sig : Signature) (items : List Json) : Prop :=
  FilterReads w b (jsonMessage names sig (storedOf js bus sig 0 items)) domid ∧
    (LetThrough w b (jsonMessage names sig (storedOf js bus sig 0 items)) domid → names.member ≠ "Hello" →
      CallFits js bus names sig items)

/-- What the broker asks of a request without ever checking it: names that are not JSON's null and that libdbus
takes, an array that fits the tables, an introspected signature that fits them too, rules that compare strings, and
letters the call knows, each with what it needs. -/
def Harmless (jobj : Json) : Prop :=
  NamesNotNull jobj ∧ (Named jobj → ∀ jarray, jobj.getEx "args" = some jarray →
    SignatureFits bus (namesOf bus jobj) ∧ ∀ sig, signatureOf bus (namesOf bus jobj) = some sig →
      ∃ items, jarray = .array items ∧ ArgsFit sig items ∧ ((jobj.getEx "id").isSome →
        RequestHarmless js bus w b domid (namesOf bus jobj) sig items))

lemma returns_handleRequest_iff {names : Names} {sig : Signature} {items : List Json} :
    Returns (handleRequest bus w b domid (jsonRequest names sig (storedOf js bus sig 0 items))) ↔
      RequestHarmless js bus w b domid names sig items := by
  have hdmsg : (jsonRequest names sig (storedOf js bus sig 0 items)).dmsg =
    jsonMessage names sig (storedOf js bus sig 0 items) := rfl
  rw [handleRequest, RequestHarmless, hdmsg, ← returns_isRequestAllowed_iff w b _ true domid]
  cases h : isRequestAllowed w b (jsonMessage names sig (storedOf js bus sig 0 items)) true domid with
  | error e => simp
  | ok r =>
    obtain ⟨allowed,b'⟩ := r
    rw [← allowed_iff_letThrough h]
    cases allowed with
    | false => simp
    | true =>
      have hcall := @returns_makeJsonRequest_iff js bus names sig items
      simp only [ok_bind, if_true, returns_ok, true_and, forall_const]
      rw [← hcall]
      cases makeJsonRequest bus (jsonRequest names sig (storedOf js bus sig 0 items)) with
      | error e => simp
      | ok reply => cases reply <;> simp

/-- A request whose names and arguments were found comes through conversion, filter and call. -/
lemma returns_parsed_iff (jobj jarray : Json) :
    Returns (parseJsonArgs js bus (namesOf bus jobj) jarray >>= fun req =>
        match if (jobj.getEx "id").isSome then req else none with
        | none => return (.rejected, b)
        | some req => handleRequest bus w b domid req) ↔
      SignatureFits bus (namesOf bus jobj) ∧ ∀ sig, signatureOf bus (namesOf bus jobj) = some sig →
        ∃ items, jarray = .array items ∧ ArgsFit sig items ∧ ((jobj.getEx "id").isSome →
          RequestHarmless js bus w b domid (namesOf bus jobj) sig items) := by
  rw [parseJsonArgs, bind_assoc]
  simp only [returns_bind_iff, storeJsonArgs_eq_ok_iff, pure_eq_ok, Except.ok.injEq, exists_eq_left']
  constructor
  · rintro ⟨_,⟨hfits,⟨hsig,rfl⟩ | ⟨sig,items,hsig,rfl,hargs,rfl⟩⟩,h⟩
    · exact ⟨hfits,fun sig hs => by rw [hsig] at hs; cases hs⟩
    · refine ⟨hfits,fun sig' hs => ?_⟩
      rw [hsig] at hs
      obtain rfl := Option.some.inj hs
      refine ⟨items,rfl,hargs,fun hid => ?_⟩
      rw [if_pos hid] at h
      exact (returns_handleRequest_iff js bus w b domid).mp h
  · rintro ⟨hfits,h⟩
    cases hsig : signatureOf bus (namesOf bus jobj) with
    | none => exact ⟨none,⟨hfits,.inl ⟨rfl,rfl⟩⟩,by simp⟩
    | some sig =>
      obtain ⟨items,rfl,hargs,hreq⟩ := h sig hsig
      refine ⟨_,⟨hfits,.inr ⟨sig,items,rfl,rfl,hargs,rfl⟩⟩,?_⟩
      by_cases hid : (jobj.getEx "id").isSome
      · rw [if_pos hid]
        exact (returns_handleRequest_iff js bus w b domid).mpr (hreq hid)
      · simp [hid]

lemma returns_converted_iff (jobj : Json) :
    Returns (convertParsed js bus jobj >>= fun converted =>
        match converted with
        | none => return (.rejected, b)
        | some req => handleRequest bus w b domid req) ↔
      Harmless js bus w b domid jobj := by
  by_cases hn : NamesNotNull jobj
  · rw [convertParsed, getNames_eq bus hn, ok_bind]
    by_cases hnamed : Named jobj
    · rw [if_pos hnamed]
      cases hargs : jobj.getEx "args" with
      | none => simp [Harmless, hn, hargs]
      | some jarray =>
        simp only [Harmless, hn, hnamed, hargs, true_and, forall_const, Option.some.injEq, forall_eq',
          bind_assoc, pure_eq_ok, ok_bind]
        exact returns_parsed_iff js bus w b domid jobj jarray
    · simp [Harmless, hn, hnamed]
  · have hno : ¬ Returns (getNames bus jobj) := fun h => hn (namesNotNull_of_returns bus h)
    have hfail : ¬ Harmless js bus w b domid jobj := fun h => hn h.1
    rw [convertParsed]
    cases hg : getNames bus jobj with
    | error e => simp [hfail]
    | ok r => exact absurd ⟨r,hg⟩ hno

end Handler

/-- A call of `m` on `org.a` with the argument 1. -/
def callText : String :=
  "\x7b\"id\":1,\"destination\":\"org.a\",\"interface\":\"org.a\",\"path\":\"/\",\"method\":\"m\",\"args\":[1]\x7d"

/-- A call on another path, with null and 128. -/
def nullText : String :=
  "\x7b\"id\":2,\"destination\":\"org.a\",\"interface\":\"org.a\",\"path\":\"/n\",\"method\":\"m\",\"args\":[null,128]\x7d"

/-- A call on something that is no path. -/
def pathText : String :=
  "\x7b\"id\":3,\"destination\":\"org.a\",\"interface\":\"org.a\",\"path\":\"x\",\"method\":\"m\",\"args\":[]\x7d"

/-- What a call on `org.a` is parsed to. -/
def parsedCall (id : ℤ) (path : String) (args : List Json) : Json :=
  .object [("id", .int id), ("destination", .string "org.a"), ("interface", .string "org.a"), ("path", .string path),
    ("method", .string "m"), ("args", .array args)]

/-- A signal `m` with two numbers, for no destination. -/
def signalText : String :=
  "\x7b\"id\":4,\"type\":\"signal\",\"interface\":\"org.a\",\"path\":\"/\",\"method\":\"m\",\"args\":[1,2]\x7d"

def interfaceText : String :=
  "<node><interface name='org.a'><method name='m'><arg direction='in' type='x'/></method></interface></node>"

/-- The other path: an integer and a string. -/
def mixedText : String :=
  "<node><interface name='org.a'><method name='m'><arg direction='in' type='i'/><arg direction='in' type='s'/></method></interface></node>"

/-- What the text of a method `m` with these arguments is parsed to. -/
def methodNode (types : List String) : XmlNode :=
  .element [] [.element [("name", "org.a")] [.element [("name", "m")]
    (types.map fun type => .element [("direction", "in"), ("type", type)] [])]]

/-- json-c for plain numbers. -/
def plainJsonC : JsonC := ⟨fun _ => 0,fun _ => 0,fun _ => true,fun _ => "0"⟩

/-- A bus on which `m` of `org.a` takes one 64-bit integer, or an integer and a string. -/
def sampleBus : Bus where
  tokenerParse text :=
    if text = callText then some (parsedCall 1 "/" [.int 1])
    else if text = nullText then some (parsedCall 2 "/n" [.null, .int 128])
    else if text = pathText then some (parsedCall 3 "x" [])
    else if text = signalText then some (.object [("id", .int 4), ("type", .string "signal"),
      ("interface", .string "org.a"), ("path", .string "/"), ("method", .string "m"),
      ("args", .array [.int 1, .int 2])])
    else none
  jsonString _ := "1"
  xmlParse text :=
    if text = interfaceText then some (methodNode ["x"])
    else if text = mixedText then some (methodNode ["i", "s"])
    else none
  isBusName name := name = "org.a"
  isPath path := path ∈ ["/", "/n"]
  isInterface name := name ∈ ["org.a", dbusIntroIface]
  isMember name := name ∈ ["m", dbusIntroMeth]
  isUtf8 _ := true
  introspectable := by decide
  introspection _ path := if path = .live "/" then some interfaceText else some mixedText
  reply _ _ := some "1"

/-- A policy of one rule, without a database. -/
def oneRuleBroker (r : Rule) : BrokerState := ⟨some ⟨false, [r], []⟩, fun _ => none⟩

end Xctools.Broker
