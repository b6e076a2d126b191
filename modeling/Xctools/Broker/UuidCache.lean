import Xctools.Machine.Run
import Xctools.Broker.Filter

/-! The uuid cache over the life of a host. Xenmgr gives domids to virtual machines and takes them
back, the policy is loaded again whenever it says so, and requests fill `domain_uuids`, which
nothing ever clears. -/
namespace Xctools.Broker
open Machine

/-- A request from a domain, with what the filter is told besides who the domain is. -/
structure DomainRequest where
  world : World
  dmsg : DbusMessage
  isClient : Bool
  domid : ℕ

/-- A domain entry the filter used: for which domid, who owned it then, and who owned it when its
uuid was looked up. -/
structure Consultation where
  domid : ℕ
  entry : DomainPolicy
  owner : Option VmUuid
  lookedUp : Option VmUuid

/-- The entry is the one of the machine that owns the domid. -/
def Consultation.Right (c : Consultation) : Prop := ∃ vm, c.owner = some vm ∧ c.entry.uuid = vm.text

/-- Xenmgr's map and the broker's globals. `lookedUp` and `log` only keep a record: the owner each
cached uuid was looked up for, and the entries used. -/
structure Host where
  owners : ℕ → Option VmUuid
  broker : BrokerState
  lookedUp : ℕ → Option VmUuid
  log : List Consultation

inductive HostEvent
  | assign (domid : ℕ) (owner : Option VmUuid)
  | reload (src : PolicySource)
  | request (req : DomainRequest)

/-- Xenmgr answers `find_vm_by_domid` with the object path of the owner, dashes spelt as
underscores. -/
def Host.world (h : Host) (w : World) : World :=
  { w with findVmByDomid := fun domid => (h.owners domid).map fun vm => transformUuid vm.text }

def hostStep (h : Host) : HostEvent → Outcome Host
  | .assign domid owner =>
    .ok { h with owners := fun d => if d = domid then owner else h.owners d }
  | .reload src => do
    freePolicy h.broker.policy
    let policy ← buildPolicy src
    return { h with broker := { h.broker with policy := some policy } }
  | .request req => do
    let w := h.world req.world
    let (_, broker) ← isRequestAllowed w h.broker req.dmsg req.isClient req.domid
    let lookedUp := fun d =>
      if h.broker.uuids d = none ∧ broker.uuids d ≠ none then h.owners d else h.lookedUp d
    let used := (domainInForce w h.broker req.domid).toList.map fun entry =>
      ⟨req.domid, entry, h.owners req.domid, lookedUp req.domid⟩
    return { h with broker, lookedUp, log := h.log ++ used }

/-- The broker as it starts to serve: a policy is loaded and no uuid is known. -/
def Host.start (owners : ℕ → Option VmUuid) (policy : Policy) : Host :=
  ⟨owners, ⟨some policy, fun _ => none⟩, fun _ => none, []⟩

lemma dashes_inj {l m : List Char} (hl : '_' ∉ l) (hm : '_' ∉ m)
    (h : l.map (fun c => if c = '-' then '_' else c) = m.map fun c => if c = '-' then '_' else c) :
    l = m := by
  induction l generalizing m with
  | nil => simpa using h.symm
  | cons c l ih =>
    cases m with
    | nil => simp at h
    | cons d m =>
      simp only [List.mem_cons, not_or] at hl hm
      obtain ⟨hcd,hrest⟩ := List.cons.inj h
      have : c = d := by
        dsimp only at hcd
        split_ifs at hcd with h₁ h₂ h₂
        · rw [h₁, h₂]
        · exact absurd hcd hm.1
        · exact absurd hcd.symm hl.1
        · exact hcd
      rw [this, ih hl.2 hm.2 hrest]

lemma transformUuid_inj {u v : VmUuid} (h : transformUuid u.text = transformUuid v.text) : u = v := by
  have hlist := dashes_inj u.plain v.plain (String.ofList_injective h)
  cases u
  cases v
  simpa using String.toList_injective hlist

lemma length_transformUuid (uuid : String) : (transformUuid uuid).length = uuid.length := by
  simp [transformUuid, String.length_toList]

/-- An entry of the domain table, as `build_policy` makes it. -/
def DomainPolicy.Listed (entry : DomainPolicy) : Prop :=
  ∃ vm : VmUuid, entry.uuid = vm.text ∧ entry.uuidDbFmt = transformUuid vm.text ∧
    vm.text.length < uuidBuffer

lemma domainsLoop_listed {src : PolicySource} {n : ℕ} {vms : List VmUuid}
    {domains : List DomainPolicy} (h : domainsLoop src n vms = .ok domains) :
    ∀ entry ∈ domains, entry.Listed := by
  induction vms generalizing n domains with
  | nil =>
    cases n <;> cases h <;> simp
  | cons vm vms ih =>
    cases n with
    | zero => cases h
    | succ n =>
      rw [domainsLoop] at h
      split_ifs at h with hu
      obtain ⟨rules,-,h⟩ := bind_eq_ok.mp h
      obtain ⟨rest,hrest,h⟩ := bind_eq_ok.mp h
      cases h
      exact List.forall_mem_cons.mpr ⟨⟨vm,rfl,rfl,Nat.not_le.mp hu⟩,ih hrest⟩

lemma buildPolicy_listed {src : PolicySource} {policy : Policy} (h : buildPolicy src = .ok policy) :
    ∀ entry ∈ policy.domains, entry.Listed := by
  obtain ⟨etc,-,h⟩ := bind_eq_ok.mp h
  cases hv : src.vms with
  | none =>
    rw [hv] at h
    cases h
    simp
  | some vms =>
    rw [hv] at h
    obtain ⟨domains,hd,h⟩ := bind_eq_ok.mp h
    cases h
    exact domainsLoop_listed hd

/-- What the cache holds for a machine. -/
def cacheText (vm : VmUuid) : String :=
  String.ofList ((transformUuid vm.text).toList.take (maxUuid - 1))

/-- A listed entry found by a cached uuid is the one of the machine the uuid was looked up for: the
cut after 127 characters cannot matter, because the table has room for fewer. -/
lemma DomainPolicy.Listed.uuid_eq {entry : DomainPolicy} (h : entry.Listed) {vm : VmUuid}
    (hf : entry.uuidDbFmt = cacheText vm) : entry.uuid = vm.text := by
  obtain ⟨vm',hu,hfmt,hlen⟩ := h
  rw [hfmt] at hf
  have hl := congrArg String.length hf
  simp only [cacheText, length_transformUuid, String.length_ofList, List.length_take,
    String.length_toList, maxUuid, uuidBuffer] at hl hlen
  have hcut : cacheText vm = transformUuid vm.text := by
    rw [cacheText, List.take_of_length_le, String.ofList_toList]
    simp only [String.length_toList, length_transformUuid, maxUuid]
    omega
  rw [hcut] at hf
  rw [hu, transformUuid_inj hf]

lemma getUuidFromDomid_world (h : Host) (w : World) (domid : ℕ) :
    getUuidFromDomid (h.world w) domid = (h.owners domid).map cacheText := by
  cases ho : h.owners domid <;> simp [getUuidFromDomid, Host.world, ho, cacheText]

/-- The cache holds what was looked up, the table holds listed machines, and every entry used was
the one of the machine its uuid had been looked up for. -/
structure Host.Inv (h : Host) : Prop where
  cached : ∀ d uuid, h.broker.uuids d = some uuid → ∃ vm, h.lookedUp d = some vm ∧ uuid = cacheText vm
  listed : ∀ policy, h.broker.policy = some policy → ∀ entry ∈ policy.domains, entry.Listed
  used : ∀ c ∈ h.log, ∃ vm, c.lookedUp = some vm ∧ c.entry.uuid = vm.text

lemma Host.inv_start (owners : ℕ → Option VmUuid) {src : PolicySource} {policy : Policy}
    (hp : buildPolicy src = .ok policy) : (Host.start owners policy).Inv where
  cached := by simp [Host.start]
  listed := by
    rintro _ ⟨rfl⟩
    exact buildPolicy_listed hp
  used := by simp [Host.start]

/-- What a request does to the host. -/
lemma hostStep_request {h t : Host} {req : DomainRequest} (hstep : hostStep h (.request req) = .ok t) :
    t.owners = h.owners ∧ t.broker = brokerAfter (h.world req.world) h.broker req.domid ∧
    (∀ d, t.lookedUp d = if h.broker.uuids d = none ∧ t.broker.uuids d ≠ none then h.owners d
      else h.lookedUp d) ∧
    ∀ c ∈ t.log, c ∈ h.log ∨ domainInForce (h.world req.world) h.broker req.domid = some c.entry ∧
      c.owner = h.owners req.domid ∧ c.lookedUp = t.lookedUp req.domid := by
  obtain ⟨⟨allowed,broker⟩,ha,hstep⟩ := bind_eq_ok.mp hstep
  have hb := isRequestAllowedWithin_broker _ _ ha
  cases hstep
  refine ⟨rfl,hb,fun d => rfl,?_⟩
  intro c hc
  rcases List.mem_append.mp hc with hc | hc
  · exact .inl hc
  · obtain ⟨entry,he,rfl⟩ := List.mem_map.mp hc
    exact .inr ⟨Option.mem_toList.mp he,rfl,rfl⟩

lemma Host.Inv.step {h t : Host} {e : HostEvent} (hi : h.Inv) (hstep : hostStep h e = .ok t) :
    t.Inv := by
  cases e with
  | assign domid owner =>
    cases hstep
    exact ⟨hi.cached,hi.listed,hi.used⟩
  | reload src =>
    obtain ⟨_,-,hstep⟩ := bind_eq_ok.mp hstep
    obtain ⟨policy,hp,hstep⟩ := bind_eq_ok.mp hstep
    cases hstep
    refine ⟨hi.cached,?_,hi.used⟩
    rintro _ ⟨rfl⟩
    exact buildPolicy_listed hp
  | request req =>
    obtain ⟨-,hb,hl,hlog⟩ := hostStep_request hstep
    have hcached : ∀ d uuid, t.broker.uuids d = some uuid →
        ∃ vm, t.lookedUp d = some vm ∧ uuid = cacheText vm := by
      intro d uuid hu
      have hu' := hu
      rw [hb] at hu'
      rcases brokerAfter_uuids _ _ _ hu' with hold | ⟨hnone,rfl,hnew⟩
      · rw [hl d, if_neg (by simp [hold])]
        exact hi.cached d uuid hold
      · rw [getUuidFromDomid_world] at hnew
        obtain ⟨vm,ho,rfl⟩ := Option.map_eq_some_iff.mp hnew
        exact ⟨vm,by rw [hl, if_pos ⟨hnone,by simp [hu]⟩, ho],rfl⟩
    refine ⟨hcached,?_,?_⟩
    · intro policy hp
      rw [hb, brokerAfter_policy] at hp
      exact hi.listed policy hp
    · intro c hc
      rcases hlog c hc with hc | ⟨hd,-,hlook⟩
      · exact hi.used c hc
      · obtain ⟨policy,hp,hmem,hu⟩ := domainInForce_eq_some _ _ _ hd
        rw [← hb] at hu
        obtain ⟨vm,hvm,hfmt⟩ := hcached _ _ hu
        exact ⟨vm,hlook.trans hvm,(hi.listed policy hp _ hmem).uuid_eq hfmt⟩

/-- The cached uuids and the used entries are those of the current owners. -/
def Host.Current (h : Host) : Prop :=
  (∀ d, h.broker.uuids d ≠ none → h.lookedUp d = h.owners d) ∧ ∀ c ∈ h.log, c.owner = c.lookedUp

/-- The event does not give away a domid whose uuid is cached. -/
def KeepsCached (h : Host) : HostEvent → Prop
  | .assign domid owner => h.broker.uuids domid = none ∨ owner = h.owners domid
  | _ => True

instance (h : Host) (e : HostEvent) : Decidable (KeepsCached h e) :=
  match e with
  | .assign _ _ => inferInstanceAs (Decidable (_ ∨ _))
  | .reload _ => .isTrue trivial
  | .request _ => .isTrue trivial

lemma Host.Current.step {h t : Host} {e : HostEvent} (hc : h.Current) (hk : KeepsCached h e)
    (hstep : hostStep h e = .ok t) : t.Current := by
  obtain ⟨hcache,hlog⟩ := hc
  cases e with
  | assign domid owner =>
    cases hstep
    refine ⟨fun d hd => ?_,hlog⟩
    by_cases hdd : d = domid
    · subst hdd
      rcases hk with hk | hk
      · exact absurd hk hd
      · simp [hk, hcache d hd]
    · simp [hdd, hcache d hd]
  | reload src =>
    obtain ⟨_,-,hstep⟩ := bind_eq_ok.mp hstep
    obtain ⟨policy,-,hstep⟩ := bind_eq_ok.mp hstep
    cases hstep
    exact ⟨hcache,hlog⟩
  | request req =>
    obtain ⟨ho,hb,hl,hnew⟩ := hostStep_request hstep
    have hcache' : ∀ d, t.broker.uuids d ≠ none → t.lookedUp d = t.owners d := by
      intro d hd
      rw [hl d, ho]
      split_ifs with hif
      · rfl
      · by_cases hold : h.broker.uuids d = none
        · exact absurd ⟨hold,hd⟩ hif
        · exact hcache d hold
    refine ⟨hcache',fun c hc => ?_⟩
    rcases hnew c hc with hc | ⟨hd,how,hlook⟩
    · exact hlog c hc
    · obtain ⟨_,-,-,hu⟩ := domainInForce_eq_some _ _ _ hd
      rw [how, hlook, hcache' req.domid (by simp [hb, hu]), ho]

lemma Host.Inv.right_iff {h : Host} (hi : h.Inv) {c : Consultation} (hc : c ∈ h.log) :
    c.Right ↔ c.owner = c.lookedUp := by
  obtain ⟨vm,hlook,hu⟩ := hi.used c hc
  constructor
  · rintro ⟨vm',ho,hu'⟩
    have : vm' = vm := by
      cases vm
      cases vm'
      simpa [hu] using hu'.symm
    rw [ho, hlook, this]
  · intro ho
    exact ⟨vm,ho.trans hlook,hu⟩

/-- In every run of a host, the entries used are those of the domids' owners exactly when each
domid still belongs to the machine its uuid was looked up for; and so they are as long as no domid
with a cached uuid is given away. -/
theorem hostStep_right_iff {src : PolicySource} {policy : Policy} (hp : buildPolicy src = .ok policy)
    (owners : ℕ → Option VmUuid) {es : List HostEvent} {t : Host}
    (hr : perform hostStep (Host.start owners policy) es = .ok t) :
    ((∀ c ∈ t.log, c.Right) ↔ ∀ c ∈ t.log, c.owner = c.lookedUp) ∧
    (Meets hostStep KeepsCached (Host.start owners policy) es → ∀ c ∈ t.log, c.Right) := by
  have hi : t.Inv := perform_invariant (fun _ _ _ h he => Host.Inv.step h he)
    (Host.inv_start owners hp) hr
  refine ⟨forall₂_congr fun c hc => hi.right_iff hc,fun hm c hc => ?_⟩
  have hcur : t.Current := hm.invariant (fun _ _ _ hc hk he => Host.Current.step hc hk he)
    (by simp [Host.Current, Host.start]) hr
  exact (hi.right_iff hc).mpr (hcur.2 c hc)

/-- Machine `a-1` may do everything, machine `b-2` nothing. -/
def sampleSource : PolicySource where
  file := none
  lineBuffer n := n
  vms := some [⟨"a-1", by decide⟩, ⟨"b-2", by decide⟩]
  dbRead path := if path = "/vm/a-1/rpc-firewall-rules/0" then some "allow all" else none

def sampleLoaded : Policy :=
  ⟨true, [], [⟨"a-1", "a_1", [{ all := true, policy := true, ruleString := .live "allow all" }]⟩,
    ⟨"b-2", "b_2", []⟩]⟩

lemma buildPolicy_sampleSource : buildPolicy sampleSource = .ok sampleLoaded := by decide +kernel

/-- Domain 3 belongs to machine `a-1`. -/
def sampleHost : Host := Host.start (fun d => if d = 3 then some ⟨"a-1", by decide⟩ else none) sampleLoaded

def sampleRequest : HostEvent := .request ⟨sampleWorld, sampleMessage, true, 3⟩

/-- Domain 3 is given to machine `b-2` after its first request. -/
def reuseEvents : List HostEvent :=
  [sampleRequest, .assign 3 (some ⟨"b-2", by decide⟩), .reload sampleSource, sampleRequest]

/-- The machines of the entries used in a run, each with the owner at that time. -/
def usedFor (es : List HostEvent) : Option (List (String × Option String)) :=
  (perform hostStep sampleHost es).toOption.map fun t =>
    t.log.map fun c => (c.entry.uuid, c.owner.map VmUuid.text)

lemma perform_of_usedFor (es : List HostEvent) {l : List (String × Option String)}
    (h : usedFor es = some l) : ∃ t, perform hostStep sampleHost es = .ok t ∧
      t.log.map (fun c => (c.entry.uuid, c.owner.map VmUuid.text)) = l := by
  exact map_toOption_eq_some.mp h

/-- Domain 5, of which nothing is cached, is given to machine `b-2`, and the policy is read again. -/
def freshEvents : List HostEvent :=
  [sampleRequest, .assign 5 (some ⟨"b-2", by decide⟩), .request ⟨sampleWorld, sampleMessage, true, 5⟩,
    .reload sampleSource, sampleRequest]

theorem hostStep_right_iff_sample :
    ∃ t, perform hostStep sampleHost freshEvents = .ok t ∧
      t.log.map (fun c => (c.entry.uuid, c.owner.map VmUuid.text)) =
        [("a-1", some "a-1"), ("b-2", some "b-2"), ("a-1", some "a-1")] ∧ ∀ c ∈ t.log, c.Right := by
  obtain ⟨t,ht,hlog⟩ := perform_of_usedFor freshEvents
    (l := [("a-1", some "a-1"), ("b-2", some "b-2"), ("a-1", some "a-1")]) (by decide +kernel)
  have hmeets : Meets hostStep KeepsCached sampleHost freshEvents := by decide +kernel
  exact ⟨t,ht,hlog,(hostStep_right_iff buildPolicy_sampleSource _ ht).2 hmeets⟩

/-- After the reuse the new machine's request is judged by the rules of the old one. -/
theorem reused_domid_not_right :
    ∃ t, perform hostStep sampleHost reuseEvents = .ok t ∧ ¬ ∀ c ∈ t.log, c.Right := by
  obtain ⟨t,ht,hlog⟩ := perform_of_usedFor reuseEvents
    (l := [("a-1", some "a-1"), ("a-1", some "b-2")]) (by decide +kernel)
  refine ⟨t,ht,fun hall => ?_⟩
  have hmem : ("a-1", some "b-2") ∈ t.log.map fun c => (c.entry.uuid, c.owner.map VmUuid.text) := by
    rw [hlog]
    simp
  obtain ⟨c,hc,heq⟩ := List.mem_map.mp hmem
  obtain ⟨vm,ho,hu⟩ := hall c hc
  obtain ⟨ha,hb⟩ : vm.text = "a-1" ∧ vm.text = "b-2" := by simpa [ho, hu] using heq
  exact absurd (ha.symm.trans hb) (by decide)

end Xctools.Broker
