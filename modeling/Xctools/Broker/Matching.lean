import Xctools.Broker.Filter

/-! What a rule states, and when `rule_matches_request` takes it to apply. A criterion that cannot be checked
is not taken for refuted everywhere: without a database those about the machine are passed over, the type of
the machine never counts, and an attribute only has to differ from the opposite value. -/
namespace Xctools.Broker
open Machine

section Statement

/-- The attribute and the value of the last `if-boolean` among the criteria. -/
def statedBool : List String → Option (String × String)
  | token :: field :: rest =>
    if token = "if-boolean" then
      match rest with
      | [] => none
      | value :: rest' => (statedBool rest').or (some (field, value))
    else statedBool rest
  | _ => none

/-- The same for the text of a rule, whose first word is the policy. -/
def ifBooleanOf (text : String) : Option (String × String) := statedBool (strtok text).tail

/-- What is kept of the value of an attribute is whether it is `true`. -/
def Keeps (stated : Option (String × String)) (current r : Rule) : Prop :=
  match stated with
  | some (a, v) => r.ifBool = .live a ∧ r.ifBoolFlag = (v = "true" : Bool)
  | none => r.ifBool = current.ifBool ∧ r.ifBoolFlag = current.ifBoolFlag

lemma statedBool_pair {token : String} (h : token ≠ "if-boolean") (field : String) (rest : List String) :
    statedBool (token :: field :: rest) = statedBool rest := by
  rw [statedBool.eq_def]
  simp only [if_neg h]

lemma criteria_keeps {current r : Rule} {words : List String} (h : criteria current words = .ok (true, r)) :
    Keeps (statedBool words) current r := by
  fun_induction criteria current words with
  | case1 current =>
    obtain ⟨-,rfl⟩ := Prod.mk.inj (Except.ok.inj h)
    exact ⟨rfl,rfl⟩
  | case2 current token hs => cases (Prod.mk.inj (Except.ok.inj h)).1
  | case3 current hs =>
    obtain ⟨-,rfl⟩ := Prod.mk.inj (Except.ok.inj h)
    exact ⟨rfl,rfl⟩
  | case4 current token hs hne =>
    obtain ⟨r',-,h⟩ := bind_eq_ok.mp h
    cases (Prod.mk.inj (Except.ok.inj h)).1
  | case8 current field => cases h
  | case13 current token field rest h₁ h₂ h₃ h₄ h₅ h₆ h₇ =>
    obtain ⟨r',-,h⟩ := bind_eq_ok.mp h
    cases (Prod.mk.inj (Except.ok.inj h)).1
  | case9 current field value rest _ _ _ ih =>
    have hrest := ih h
    rw [statedBool, if_pos rfl]
    -- the last one of several counts
    cases hstated : statedBool rest with
    | none =>
      rw [hstated] at hrest
      exact hrest
    | some stated =>
      rw [hstated] at hrest
      exact hrest
  | case5 current field rest ih
  | case6 current field rest _ ih
  | case7 current field rest _ _ ih
  | case10 current field rest _ _ _ _ ih
  | case11 current field rest _ _ _ _ _ ih
  | case12 current field rest _ _ _ _ _ _ ih =>
    rw [statedBool_pair (by decide)]
    exact ih h

/-- What an accepted text says about an attribute is in the rule. -/
lemma accepted_keeps {text : String} {r : Rule} (h : accepted text = some r) (hall : r.all = false)
    (hout : r.out = false) : Keeps (ifBooleanOf text) {} r := by
  have hcreate : createRule {} text = .ok (true, r) := by
    unfold accepted at h
    split at h
    · rename_i hc
      rw [hc, Option.some.inj h]
    · cases h
  unfold createRule at hcreate
  split_ifs at hcreate
  · cases (Prod.mk.inj (Except.ok.inj hcreate)).1
  · unfold ifBooleanOf
    cases hwords : strtok text with
    | nil =>
      rw [hwords] at hcreate
      cases (Prod.mk.inj (Except.ok.inj hcreate)).1
    | cons first words =>
      simp only [hwords] at hcreate
      cases words with
      | nil => cases hcreate
      | cons token rest =>
        simp only at hcreate
        split_ifs at hcreate
        · obtain ⟨-,rfl⟩ := Prod.mk.inj (Except.ok.inj hcreate)
          cases hall
        · obtain ⟨-,rfl⟩ := Prod.mk.inj (Except.ok.inj hcreate)
          cases hout
        · have hkeeps := criteria_keeps hcreate
          rw [List.tail_cons]
          cases hstated : statedBool (token :: rest) with
          | none =>
            rw [hstated] at hkeeps
            exact hkeeps
          | some stated =>
            rw [hstated] at hkeeps
            exact hkeeps

end Statement

section Criteria
variable (w : World) (database isClient : Bool) (dmsg : DbusMessage) (domid : UInt16) (text : String) (r : Rule)

/-- The domain has a target, as xenstore says. -/
def StubDomain : Prop := w.haveXenstore = true ∧ w.xsOpen = true ∧ isStubdom w domid = true

/-- A string that the database has for the machine of a domain. -/
def machineReads (key value : String) : Prop :=
  database = true ∧ ∃ uuid, getDbVmPath w domid = some uuid ∧ dbQuery w.dbRead (uuid ++ "/" ++ key) = some value

/-- The names that are stated are those of the request. -/
def NamesAgree : Prop := ∀ p ∈ r.against dmsg, p.1.IsSet → ∃ s, p.1 = .live s ∧ p.2 = .live s

/-- Everything the rule states holds. -/
structure CriteriaHold : Prop where
  stubdom : r.stubdom = true → StubDomain w domid
  names : NamesAgree dmsg r
  domtype : r.domtype.IsSet → ∃ t, r.domtype = .live t ∧ machineReads w database domid "type" t
  ifBoolean : ∀ a v, ifBooleanOf text = some (a, v) → machineReads w database domid a v

/-- When the rule should have a say. -/
def Applies : Prop :=
  r.all = true ∨ r.out = true ∧ isClient = false ∨
    r.all = false ∧ r.out = false ∧ CriteriaHold w database dmsg domid text r

/-- The rule has a say when it should, and only then. -/
def MatchesAsStated : Prop :=
  ∃ v, ruleMatchesRequest w database isClient dmsg domid r = .ok v ∧
    (Applies w database isClient dmsg domid text r → v = some r.policy) ∧
    (¬ Applies w database isClient dmsg domid text r → v = none)

/-- What `rule_matches_request` looks at does not speak against the rule. -/
structure Unrefuted : Prop where
  stubdom : r.stubdom = true → isStubdom w domid = true
  names : NamesAgree dmsg r
  machine : database = true → r.ifBool.IsSet ∨ r.domtype.IsSet → ∃ uuid, getDbVmPath w domid = some uuid ∧
    ∀ a, r.ifBool = .live a → filterIfBool w uuid a r.ifBoolFlag = true

/-- What the rule states, and `rule_matches_request` does not look at, does not hold: a stub domain where
xenstore does not open, the type of the machine, and the very value of the attribute. -/
def Overlooked : Prop :=
  r.stubdom = true ∧ w.xsOpen = false ∨
  (r.domtype.IsSet ∧ ¬ ∃ t, r.domtype = .live t ∧ machineReads w database domid "type" t) ∨
  ∃ a v, ifBooleanOf text = some (a, v) ∧ ¬ machineReads w database domid a v

variable {w database isClient dmsg domid text r}

lemma criteriaDiffer_eq_false_iff {l : List (CStr × CStr)} :
    criteriaDiffer l = .ok false ↔ ∀ p ∈ l, p.1.IsSet → ∃ s, p.1 = .live s ∧ p.2 = .live s := by
  induction l with
  | nil => simp [criteriaDiffer]
  | cons p l ih =>
    obtain ⟨criterion,field⟩ := p
    rw [List.forall_mem_cons, ← ih]
    cases criterion with
    | null => simp [criteriaDiffer]
    | wild => simp [criteriaDiffer]
    | live c =>
      cases field with
      | null => simp [criteriaDiffer]
      | wild => simp [criteriaDiffer]
      | live f =>
        by_cases hcf : c = f
        · simp [criteriaDiffer, hcf]
        · simp [criteriaDiffer, hcf, Ne.symm hcf]

lemma machineMatches_eq_true_iff : machineMatches w domid r = .ok true ↔
    ∃ uuid, getDbVmPath w domid = some uuid ∧
      (r.ifBool.IsSet → ∃ a, r.ifBool = .live a ∧ filterIfBool w uuid a r.ifBoolFlag = true) := by
  unfold machineMatches
  cases getDbVmPath w domid with
  | none => simp
  | some uuid => cases hb : r.ifBool <;> simp

/-- The rule is given its say exactly when nothing that is looked at speaks against it. -/
lemma ruleMatchesRequest_eq (hdomid : domid ≠ 0) (hall : r.all = false) (hout : r.out = false)
    (hread : Readable w database dmsg domid r) :
    (Unrefuted w database dmsg domid r → ruleMatchesRequest w database isClient dmsg domid r = .ok (some r.policy)) ∧
      (¬ Unrefuted w database dmsg domid r → ruleMatchesRequest w database isClient dmsg domid r = .ok none) := by
  obtain ⟨v,hv⟩ := (returns_ruleMatchesRequest_iff w database isClient dmsg domid r).mpr hread
  have hcode := hv
  rw [ruleMatchesRequest, if_neg hdomid, hall, hout, if_neg (by decide), if_neg (by decide)] at hcode
  by_cases hstub : r.stubdom ∧ ¬ isStubdom w domid
  · rw [if_pos hstub] at hcode
    obtain rfl := Except.ok.inj hcode
    exact ⟨fun h => absurd (h.stubdom hstub.1) hstub.2,fun _ => hv⟩
  · rw [if_neg hstub] at hcode
    have hstubdom : r.stubdom = true → isStubdom w domid = true := fun h => not_not.mp fun hno => hstub ⟨h,hno⟩
    obtain ⟨differs,hdiffers,hcode⟩ := bind_eq_ok.mp hcode
    cases differs with
    | true =>
      obtain rfl := Except.ok.inj hcode
      refine ⟨fun h => ?_,fun _ => hv⟩
      have hagree := criteriaDiffer_eq_false_iff.mpr h.names
      rw [hdiffers] at hagree
      cases hagree
    | false =>
      have hnames : NamesAgree dmsg r := criteriaDiffer_eq_false_iff.mp hdiffers
      rw [if_neg (by decide)] at hcode
      cases database with
      | false =>
        obtain rfl := Except.ok.inj hcode
        exact ⟨fun _ => hv,fun h => absurd ⟨hstubdom,hnames,fun hdb => by cases hdb⟩ h⟩
      | true =>
        rw [if_neg (by decide)] at hcode
        by_cases hset : r.ifBool.IsSet ∨ r.domtype.IsSet
        · rw [if_pos hset] at hcode
          obtain ⟨holds,hholds,hcode⟩ := bind_eq_ok.mp hcode
          obtain rfl := Except.ok.inj hcode
          cases holds with
          | true =>
            refine ⟨fun _ => hv,fun h => absurd ⟨hstubdom,hnames,fun _ _ => ?_⟩ h⟩
            obtain ⟨uuid,huuid,hbool⟩ := machineMatches_eq_true_iff.mp hholds
            refine ⟨uuid,huuid,fun a ha => ?_⟩
            obtain ⟨a',ha',hfilter⟩ := hbool (by rw [ha]; exact Ptr.isSet_live a)
            rw [ha] at ha'
            obtain rfl := Ptr.live.inj ha'
            exact hfilter
          | false =>
            refine ⟨fun h => ?_,fun _ => hv⟩
            obtain ⟨uuid,huuid,hbool⟩ := h.machine rfl hset
            have hreturns := (returns_machineMatches_iff w domid r).mp ⟨_,hholds⟩ (by rw [huuid]; rfl)
            have htrue : machineMatches w domid r = .ok true := by
              refine machineMatches_eq_true_iff.mpr ⟨uuid,huuid,fun hs => ?_⟩
              cases hb : r.ifBool with
              | null => exact absurd hb hs
              | wild => exact absurd hb hreturns
              | live a => exact ⟨a,rfl,hbool a hb⟩
            rw [hholds] at htrue
            cases htrue
        · rw [if_neg hset] at hcode
          obtain rfl := Except.ok.inj hcode
          exact ⟨fun _ => hv,fun h => absurd ⟨hstubdom,hnames,fun _ hs => absurd hs hset⟩ h⟩

/-- An attribute that reads as stated is not the opposite value. -/
lemma filterIfBool_of_reads {uuid a v : String} (h : dbQuery w.dbRead (uuid ++ "/" ++ a) = some v) :
    filterIfBool w uuid a (v = "true" : Bool) = true := by
  unfold filterIfBool
  rw [h]
  by_cases htrue : v = "true"
  · simp [htrue]
  · simp [htrue]

/-- A rule whose criteria hold is not refuted. -/
lemma CriteriaHold.unrefuted (h : CriteriaHold w database dmsg domid text r) (hkeeps : Keeps (ifBooleanOf text) {} r) :
    Unrefuted w database dmsg domid r where
  stubdom hs := (h.stubdom hs).2.2
  names := h.names
  machine _ hset := by
    cases hstated : ifBooleanOf text with
    | none =>
      rw [hstated] at hkeeps
      obtain ⟨hnull,-⟩ := hkeeps
      change r.ifBool = .null at hnull
      obtain ⟨t,-,-,uuid,huuid,-⟩ := h.domtype (hset.resolve_left fun hs => hs hnull)
      refine ⟨uuid,huuid,fun a ha => ?_⟩
      rw [hnull] at ha
      cases ha
    | some stated =>
      obtain ⟨a,v⟩ := stated
      rw [hstated] at hkeeps
      obtain ⟨hlive,hflag⟩ := hkeeps
      obtain ⟨-,uuid,huuid,hreads⟩ := h.ifBoolean a v hstated
      refine ⟨uuid,huuid,fun a' ha' => ?_⟩
      rw [hlive] at ha'
      obtain rfl := Ptr.live.inj ha'
      rw [hflag]
      exact filterIfBool_of_reads hreads

/-- What is left open between the two. -/
lemma Unrefuted.criteriaHold_iff (h : Unrefuted w database dmsg domid r) :
    CriteriaHold w database dmsg domid text r ↔ ¬ Overlooked w database domid text r := by
  constructor
  · rintro hc (⟨hs,hopen⟩ | ⟨hset,hno⟩ | ⟨a,v,hstated,hno⟩)
    · have hreally := (hc.stubdom hs).2.1
      rw [hopen] at hreally
      cases hreally
    · exact hno (hc.domtype hset)
    · exact hno (hc.ifBoolean a v hstated)
  · intro ho
    refine ⟨fun hs => ?_,h.names,fun hset => ?_,fun a v hstated => ?_⟩
    · have hopen : w.xsOpen = true := by
        by_contra hno
        exact ho (.inl ⟨hs,by simpa using hno⟩)
      have hstub := h.stubdom hs
      refine ⟨?_,hopen,hstub⟩
      by_contra hno
      simp [isStubdom, hno] at hstub
    · by_contra hno
      exact ho (.inr (.inl ⟨hset,hno⟩))
    · by_contra hno
      exact ho (.inr (.inr ⟨a,v,hstated,hno⟩))

end Criteria

section Main
variable (w : World) (database isClient : Bool) (dmsg : DbusMessage) {domid : UInt16} {text : String} {r : Rule}

lemma asStated_of_all (hdomid : domid ≠ 0) (hall : r.all = true) :
    MatchesAsStated w database isClient dmsg domid text r := by
  refine ⟨some r.policy,?_,fun _ => rfl,fun h => absurd (.inl hall) h⟩
  rw [ruleMatchesRequest, if_neg hdomid, hall, if_pos rfl]

/-- A rule for what goes out has a say for all but clients. -/
lemma asStated_of_out (hdomid : domid ≠ 0) (hall : r.all = false) (hout : r.out = true) :
    MatchesAsStated w database isClient dmsg domid text r := by
  have hcode : ruleMatchesRequest w database isClient dmsg domid r =
      .ok (if isClient then none else some r.policy) := by
    rw [ruleMatchesRequest, if_neg hdomid, hall, hout, if_neg (by decide), if_pos rfl]
  refine ⟨_,hcode,?_,?_⟩
  · rintro (h | ⟨-,h⟩ | ⟨-,h,-⟩)
    · rw [hall] at h
      cases h
    · rw [h]
      rfl
    · rw [hout] at h
      cases h
  · intro h
    cases isClient with
    | true => rfl
    | false => exact absurd (.inr (.inl ⟨hout,rfl⟩)) h

/-- A rule is taken to apply when it should not exactly if it has criteria, all that are looked at go in its
favour, and one that is not looked at fails. Rules are never passed over when they apply. -/
theorem ruleMatchesRequest_asStated_iff (hdomid : domid ≠ 0) (hr : accepted text = some r) :
    MatchesAsStated w database isClient dmsg domid text r ↔
      Readable w database dmsg domid r ∧
        ¬ (r.all = false ∧ r.out = false ∧ Unrefuted w database dmsg domid r ∧ Overlooked w database domid text r) := by
  constructor
  · rintro ⟨v,hv,happlies,hnot⟩
    have hread := (returns_ruleMatchesRequest_iff w database isClient dmsg domid r).mp ⟨v,hv⟩
    refine ⟨hread,?_⟩
    rintro ⟨hall,hout,hunrefuted,hover⟩
    have hno : ¬ Applies w database isClient dmsg domid text r := by
      rintro (h | ⟨h,-⟩ | ⟨-,-,h⟩)
      · rw [hall] at h
        cases h
      · rw [hout] at h
        cases h
      · exact hunrefuted.criteriaHold_iff.mp h hover
    rw [(ruleMatchesRequest_eq hdomid hall hout hread).1 hunrefuted, hnot hno] at hv
    cases hv
  · rintro ⟨hread,hkind⟩
    cases hall : r.all with
    | true => exact asStated_of_all w database isClient dmsg hdomid hall
    | false =>
      cases hout : r.out with
      | true => exact asStated_of_out w database isClient dmsg hdomid hall hout
      | false =>
        have hkeeps := accepted_keeps hr hall hout
        obtain ⟨hyes,hno⟩ := @ruleMatchesRequest_eq w database isClient dmsg domid r hdomid hall hout hread
        have hiff : Applies w database isClient dmsg domid text r ↔ CriteriaHold w database dmsg domid text r := by
          simp [Applies, hall, hout]
        by_cases hunrefuted : Unrefuted w database dmsg domid r
        · refine ⟨_,hyes hunrefuted,fun _ => rfl,fun h => absurd ?_ h⟩
          rw [hiff, hunrefuted.criteriaHold_iff]
          exact fun hover => hkind ⟨hall,hout,hunrefuted,hover⟩
        · refine ⟨_,hno hunrefuted,fun h => absurd ((hiff.mp h).unrefuted hkeeps) hunrefuted,fun _ => rfl⟩

end Main

/-- Domain 3 runs the machine `/vm/a`, of type `svm`. -/
def typedWorld : World where
  haveXenstore := true
  xsOpen := true
  xsRead key := if key = "/local/domain/3/vm" then some "/vm/a" else none
  dbRead key := if key = "/vm/a/type" then some "svm" else none
  findVmByDomid _ := none

def interfaceRule : Rule := { policy := true, interface := .live "org.a", ruleString := .live "allow interface org.a" }

theorem ruleMatchesRequest_asStated_interface : accepted "allow interface org.a" = some interfaceRule ∧
    MatchesAsStated typedWorld true true sampleMessage 3 "allow interface org.a" interfaceRule := by
  have haccepted : accepted "allow interface org.a" = some interfaceRule := by decide +kernel
  have hbool : ifBooleanOf "allow interface org.a" = none := by decide +kernel
  refine ⟨haccepted,(ruleMatchesRequest_asStated_iff typedWorld true true sampleMessage (by decide) haccepted).mpr
    ⟨(returns_ruleMatchesRequest_iff typedWorld true true sampleMessage 3 interfaceRule).mp ⟨some true,?_⟩,?_⟩⟩
  · decide +kernel
  · rintro ⟨-,-,-,⟨hs,-⟩ | ⟨hs,-⟩ | ⟨a,v,hs,-⟩⟩
    · cases hs
    · exact hs rfl
    · rw [hbool] at hs
      cases hs

def domTypeRule : Rule := { policy := true, domtype := .live "uivm", ruleString := .live "allow dom-type uivm" }

/-- A rule for machines of another type lets the request pass. -/
theorem domType_never_compared : accepted "allow dom-type uivm" = some domTypeRule ∧
    ruleMatchesRequest typedWorld true true sampleMessage 3 domTypeRule = .ok (some true) ∧
    dbQuery typedWorld.dbRead "/vm/a/type" = some "svm" ∧
    ¬ MatchesAsStated typedWorld true true sampleMessage 3 "allow dom-type uivm" domTypeRule := by
  have hcode : ruleMatchesRequest typedWorld true true sampleMessage 3 domTypeRule = .ok (some true) := by
    decide +kernel
  have hpath : getDbVmPath typedWorld 3 = some "/vm/a" := by decide +kernel
  have htype : dbQuery typedWorld.dbRead "/vm/a/type" = some "svm" := by decide +kernel
  refine ⟨by decide +kernel,hcode,htype,?_⟩
  rintro ⟨v,hv,-,hno⟩
  have happlies : ¬ Applies typedWorld true true sampleMessage 3 "allow dom-type uivm" domTypeRule := by
    rintro (h | ⟨h,-⟩ | ⟨-,-,h⟩)
    · cases h
    · cases h
    · obtain ⟨t,ht,-,uuid,huuid,hreads⟩ := h.domtype (Ptr.isSet_live "uivm")
      obtain rfl := Ptr.live.inj ht
      rw [hpath] at huuid
      obtain rfl := Option.some.inj huuid
      rw [show "/vm/a" ++ "/" ++ "type" = "/vm/a/type" by decide, htype] at hreads
      exact absurd (Option.some.inj hreads) (by decide)
  rw [hcode, hno happlies] at hv
  cases hv

end Xctools.Broker
