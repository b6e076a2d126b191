import Xctools.Xcpmd.RefCounts
import Xctools.Xcpmd.Verdict

/-! The rules in the engine and their entries below the rules' node. A request changes both, by separate
calls; what it does to them is said once, and from that the entries are those of the loaded rules as
long as the name of a rule is one segment of a path. -/
namespace Xctools.Xcpmd
open Machine

section Paths

/-- The first segment of a path holds no separator. -/
lemma head_splitOn (text : List Char) :
    ∃ segment rest, text.splitOn '/' = segment :: rest ∧ '/' ∉ segment := by
  induction text with
  | nil => exact ⟨[],[],rfl,by simp⟩
  | cons c text ih =>
    obtain ⟨segment,rest,hsplit,hsegment⟩ := ih
    rw [List.splitOn_cons_eq_if_modifyHead, hsplit]
    by_cases hc : c = '/'
    · exact ⟨[],segment :: rest,by simp [hc],by simp⟩
    · exact ⟨c :: segment,rest,by simp [hc],by simp [hsegment, Ne.symm hc]⟩

lemma rulePath_cons (name : String) : ∃ k path, rulePath name = k :: path ∧ '/' ∉ k.toList := by
  obtain ⟨segment,rest,hsplit,hsegment⟩ := head_splitOn name.toList
  exact ⟨_,_,by rw [rulePath, hsplit, List.map_cons],by simpa using hsegment⟩

lemma rulePath_singleton {name : String} (h : '/' ∉ name.toList) : rulePath name = [name] := by
  rw [rulePath, List.splitOn_eq_singleton h, List.map_singleton, String.ofList_toList]

end Paths

section Requests
variable {ε : Type} [DecidableEq ε] {libc : Libc} {reg : Registry ε} {d d' : Daemon ε}

/-- What a request can do to the rules and to the rules' node. -/
inductive Filing (libc : Libc) (d d' : Daemon ε) : Prop
  | same : d'.engine.rules = d.engine.rules → d'.rulesNode = d.rulesNode → Filing libc d d'
  | added (r : Rule ε) : d'.engine.rules = d.engine.rules ++ [r] →
    d'.rulesNode = writeDbRule libc d.rulesNode r → Filing libc d d'
  | removed (r : Rule ε) : r ∈ d.engine.rules →
    d'.engine.rules = d.engine.rules.filter (fun q => q.addr ≠ r.addr) →
    d'.rulesNode = deleteDbRule d.rulesNode r.id → Filing libc d d'
  | cleared : d'.engine.rules = [] → d'.rulesNode = deleteDbRules d.rulesNode → Filing libc d d'
  | rewritten : d.engine.rules <+: d'.engine.rules →
    d'.rulesNode = writeDbRules libc d.rulesNode d'.engine.rules → Filing libc d d'

/-- The requests that leave rules and entries in step: all but those that load the policy from the
database, or clear variables under the rules. -/
def Rpc.Storing : Rpc → Prop
  | .loadPolicyFromDb _ _ _ | .clearVars => False
  | _ => True

/-- The parser only adds rules. -/
lemma growing_kept (rules : List (Rule ε)) :
    PolicyKept libc reg fun t => Accounted reg t ∧ rules <+: t.rules where
  lookupVar t name h := ⟨(accounted_kept libc reg).lookupVar t name h.1,h.2⟩
  addVar t name arg hname harg hvar h := ⟨(accounted_kept libc reg).addVar t name arg hname harg hvar h.1,h.2⟩
  applyRule t parsed t' code err hparsed h happly := by
    refine ⟨h.1.load happly,?_⟩
    have hb : Built reg t (buildRule reg t parsed) := built_buildRule t parsed
    rcases applyRule_spec h.1.linked happly with ⟨-,-,vars',-,-,rfl,-⟩ | ⟨-,-,vars,-,-,rfl,-⟩
    · rw [loadedWith, hb.rules]
      exact h.2.trans (List.prefix_append _ _)
    · rw [rejectedWith, hb.rules]
      exact h.2

/-- What `parse_rule` comes to. The rule that is stored is the one that was added. -/
lemma parseRule_filing {vars : Option (List (String × String))} {name conditions actions undos : String}
    {err : Option String} (h : Accounted reg d.engine)
    (hd : parseRule libc reg d vars name conditions actions undos = .ok (d', err)) : Filing libc d d' := by
  obtain ⟨l,hl,hd⟩ := bind_eq_ok.mp hd
  have hkept := parseDbVars_keeps ((accounted_kept libc reg).vars d.engine .varMap) h hl
  have htail : ∀ {s : Engine ε} {r : Rule ε} {tree : DbTree}, s.rules = d.engine.rules ++ [r] →
      writeRuleTail libc d.rulesNode s = .ok tree → tree = writeDbRule libc d.rulesNode r := by
    intro s r tree hrules htree
    rw [writeRuleTail, hrules, List.getLast?_append, List.getLast?_singleton] at htree
    exact (Except.ok.inj htree).symm
  dsimp only at hd
  split at hd
  · obtain ⟨⟨t,p,code⟩,ht,hd⟩ := bind_eq_ok.mp hd
    have hcases := parseRulePersistent_cases hkept.linked ht
    dsimp only at hd
    split at hd
    · rename_i hret
      obtain ⟨tree,htree,hd⟩ := bind_eq_ok.mp hd
      obtain ⟨rfl,-⟩ := Prod.mk.inj (Except.ok.inj hd)
      rcases hcases with ⟨r,hrules,-⟩ | ⟨-,hrep⟩
      · exact .added r hrules (htail hrules htree)
      · exact absurd (.inl hret) hrep
    · rename_i hret
      obtain ⟨why,-,hd⟩ := bind_eq_ok.mp hd
      split at hd
      · rename_i hcode
        obtain ⟨tree,htree,hd⟩ := bind_eq_ok.mp hd
        obtain ⟨rfl,-⟩ := Prod.mk.inj (Except.ok.inj hd)
        rcases hcases with ⟨r,hrules,-⟩ | ⟨-,hrep⟩
        · exact .added r hrules (htail hrules htree)
        · exact absurd (.inr hcode) hrep
      · rename_i hcode
        obtain ⟨rfl,-⟩ := Prod.mk.inj (Except.ok.inj hd)
        rcases hcases with ⟨r,-,-,hrep⟩ | ⟨hrules,-⟩
        · exact absurd hrep (not_or.mpr ⟨hret,hcode⟩)
        · exact .same hrules rfl
  · obtain ⟨rfl,-⟩ := Prod.mk.inj (Except.ok.inj hd)
    exact .same rfl rfl

/-- Everything a request can do. -/
theorem serve_filing {rpc : Rpc} (h : Accounted reg d.engine) (hrpc : rpc.Storing)
    (hd : serve libc reg d rpc = .ok d') : Filing libc d d' := by
  have hdelete : ∀ t q vars, Accounted reg t → q ∈ t.rules →
      q.varNames.foldlM (changeRef reg.parseArg (-1)) t.vars = .ok vars → Accounted reg (t.without q vars) :=
    fun t q vars ht hq hvars => ht.without hq hvars
  obtain ⟨err,hd⟩ := serve_eq_ok.mp hd
  cases rpc with
  | addRule vars name conditions actions undos => exact parseRule_filing h hd
  | removeRule name =>
    simp only [handle, xcpmdRemoveRule] at hd
    cases hr : lookupRule d.engine name with
    | none =>
      rw [hr] at hd
      obtain ⟨rfl,-⟩ := Prod.mk.inj (Except.ok.inj hd)
      exact .same rfl rfl
    | some r =>
      have hmem : r ∈ d.engine.rules := List.mem_of_find?_eq_some hr
      have hname : r.id = name := by simpa using List.find?_some hr
      simp only [hr, h.linked.deleteRule_eq hmem] at hd
      obtain ⟨t,ht,hd⟩ := bind_eq_ok.mp hd
      obtain ⟨vars,-,ht⟩ := bind_eq_ok.mp ht
      obtain rfl := Except.ok.inj ht
      obtain ⟨rfl,-⟩ := Prod.mk.inj (Except.ok.inj hd)
      exact .removed r hmem rfl (by rw [hname])
  | addVar name value =>
    obtain ⟨⟨added,vars,why⟩,hv,hd⟩ := bind_eq_ok.mp hd
    obtain ⟨rfl,-⟩ := Prod.mk.inj (Except.ok.inj hd)
    exact .same rfl rfl
  | removeVar name =>
    obtain ⟨rfl,-⟩ := Prod.mk.inj (Except.ok.inj hd)
    exact .same rfl rfl
  | clearRules =>
    obtain ⟨t,ht,hd⟩ := bind_eq_ok.mp hd
    obtain ⟨rfl,-⟩ := Prod.mk.inj (Except.ok.inj hd)
    exact .cleared (deleteRules_invariant (fun _ ht => ht.linked) hdelete h ht).2 rfl
  | clearVars => exact hrpc.elim
  | clearPolicy =>
    obtain ⟨t,ht,hd⟩ := bind_eq_ok.mp hd
    obtain ⟨rfl,-⟩ := Prod.mk.inj (Except.ok.inj hd)
    exact .cleared (deleteRules_invariant (fun _ ht => ht.linked) hdelete h ht).2 rfl
  | loadPolicyFromDb vars node dump => exact hrpc.elim
  | loadPolicyFromFile file =>
    obtain ⟨⟨read,t⟩,ht,hd⟩ := bind_eq_ok.mp hd
    obtain ⟨rfl,-⟩ := Prod.mk.inj (Except.ok.inj hd)
    exact .rewritten ((growing_kept d.engine.rules).parseConfigFromFile ⟨h,List.prefix_rfl⟩ ht).2 rfl

end Requests

section Entries
variable {ε : Type} {libc : Libc} {d d' : Daemon ε} {t : DbTree} {r : Rule ε} {l : List (Rule ε)}

/-- No key of a tree holds a separator. -/
def Segmented (t : DbTree) : Prop := ∀ k ∈ t.children.map Prod.fst, '/' ∉ k.toList

lemma Segmented.writeDbRule (h : Segmented t) (r : Rule ε) : Segmented (writeDbRule libc t r) := by
  intro k hk
  obtain ⟨k',path,hpath,hk'⟩ := rulePath_cons r.id
  rw [Xcpmd.writeDbRule, hpath] at hk
  rcases Tree.mem_keys_inject hk with rfl | hmem
  · exact hk'
  · exact h k hmem

lemma Segmented.writeDbRules (h : Segmented t) (l : List (Rule ε)) : Segmented (writeDbRules libc t l) := by
  induction l generalizing t with
  | nil => exact h
  | cons r l ih => exact ih (h.writeDbRule r)

lemma Segmented.rm (h : Segmented t) (path : List String) : Segmented (t.rm path) :=
  fun k hk => h k (Tree.mem_keys_rm hk)

/-- Whatever a request does, the keys below the rules' node are segments of paths. -/
lemma Filing.segmented (hd : Filing libc d d') (h : Segmented d.rulesNode) : Segmented d'.rulesNode := by
  cases hd with
  | same _ hnode =>
    rw [hnode]
    exact h
  | added r _ hnode =>
    rw [hnode]
    exact h.writeDbRule r
  | removed r _ _ hnode =>
    rw [hnode]
    exact h.rm _
  | cleared _ hnode =>
    rw [hnode]
    exact h.rm _
  | rewritten _ hnode =>
    rw [hnode]
    exact h.writeDbRules _

/-- No loaded rule has a name that is more than one segment of a path. -/
def Flat (d : Daemon ε) : Prop := ∀ r ∈ d.engine.rules, '/' ∉ r.id.toList

/-- The entry of a rule. -/
def entryOf (libc : Libc) (r : Rule ε) : String × DbTree := (r.id, ruleToJson libc r)

/-- The rules' node holds the entries of the loaded rules. -/
def Stored (libc : Libc) (d : Daemon ε) : Prop := d.rulesNode.children = d.engine.rules.map (entryOf libc)

lemma keys_entries (l : List (Rule ε)) : (l.map (entryOf libc)).map Prod.fst = l.map Rule.id := by
  rw [List.map_map]
  rfl

lemma children_writeDbRule (h : '/' ∉ r.id.toList) :
    (writeDbRule libc t r).children = setKey r.id (ruleToJson libc r) t.children := by
  rw [writeDbRule, rulePath_singleton h, Tree.children_inject_singleton]

/-- A rule that has an entry gets it again. -/
lemma children_writeDbRule_of_mem (hids : (l.map Rule.id).Nodup) (ht : t.children = l.map (entryOf libc))
    (hr : r ∈ l) (hflat : '/' ∉ r.id.toList) : (writeDbRule libc t r).children = l.map (entryOf libc) := by
  rw [children_writeDbRule hflat, ht]
  apply setKey_of_mem
  · rw [keys_entries]
    exact hids
  · exact List.mem_map_of_mem (f := entryOf libc) hr

/-- A new rule gets one at the end. -/
lemma children_writeDbRule_of_notMem (hids : ((l ++ [r]).map Rule.id).Nodup)
    (ht : t.children = l.map (entryOf libc)) (hflat : '/' ∉ r.id.toList) :
    (writeDbRule libc t r).children = (l ++ [r]).map (entryOf libc) := by
  rw [List.map_append, List.map_singleton, List.nodup_append] at hids
  rw [children_writeDbRule hflat, ht, setKey_of_notMem, List.map_append]
  · rfl
  · rw [keys_entries]
    intro hmem
    exact hids.2.2 _ hmem _ (List.mem_singleton_self _) rfl

/-- Writing rules that have their entries changes nothing. -/
lemma children_writeDbRules_old {old : List (Rule ε)} (hids : (l.map Rule.id).Nodup)
    (ht : t.children = l.map (entryOf libc)) (hflat : ∀ r ∈ l, '/' ∉ r.id.toList) (hold : ∀ r ∈ old, r ∈ l) :
    (writeDbRules libc t old).children = l.map (entryOf libc) := by
  induction old generalizing t with
  | nil => exact ht
  | cons r old ih =>
    obtain ⟨hr,hold⟩ := List.forall_mem_cons.mp hold
    exact ih (children_writeDbRule_of_mem hids ht hr (hflat r hr)) hold

/-- Writing new rules puts their entries at the end. -/
lemma children_writeDbRules_new {new : List (Rule ε)} (hids : ((l ++ new).map Rule.id).Nodup)
    (ht : t.children = l.map (entryOf libc)) (hflat : ∀ r ∈ new, '/' ∉ r.id.toList) :
    (writeDbRules libc t new).children = (l ++ new).map (entryOf libc) := by
  induction new generalizing t l with
  | nil =>
    rw [List.append_nil]
    exact ht
  | cons r new ih =>
    obtain ⟨hr,hflat⟩ := List.forall_mem_cons.mp hflat
    have happend : l ++ r :: new = l ++ [r] ++ new := by simp
    rw [happend] at hids ⊢
    have hleft : ((l ++ [r]).map Rule.id).Nodup := by
      rw [List.map_append] at hids
      exact hids.of_append_left
    exact ih hids (children_writeDbRule_of_notMem hleft ht hr) hflat

variable [DecidableEq ε] {reg : Registry ε}

/-- The entry of a rule that is deleted goes with it. -/
lemma Filed.eraseP_entries {s : Engine ε} (h : Filed reg s) (hr : r ∈ s.rules) :
    (s.rules.map (entryOf libc)).eraseP (fun entry => entry.1 = r.id) =
      (s.rules.filter fun q => q.addr ≠ r.addr).map (entryOf libc) := by
  obtain ⟨before,after,hrules⟩ := List.append_of_mem hr
  have hids := h.ids
  rw [hrules, List.map_append, List.map_cons, List.nodup_middle, List.nodup_cons, List.mem_append,
    not_or] at hids
  have hbefore : ∀ entry ∈ before.map (entryOf libc), ¬ decide (entry.1 = r.id) = true := by
    intro entry hentry he
    obtain ⟨q,hq,rfl⟩ := List.mem_map.mp hentry
    exact hids.1.1 (List.mem_map.mpr ⟨q,hq,of_decide_eq_true he⟩)
  rw [h.linked.rules_filter hrules, hrules, List.map_append, List.map_cons,
    List.eraseP_append_right _ hbefore, List.eraseP_cons_of_pos (by simp [entryOf]), List.map_append]

/-- A request keeps the entries those of the loaded rules, if the names of all rules are single
segments. -/
theorem Filing.stored (hd : Filing libc d d') (hfiled : Filed reg d.engine) (hfiled' : Filed reg d'.engine)
    (hflat : Flat d) (hflat' : Flat d') (h : Stored libc d) : Stored libc d' := by
  unfold Stored at h ⊢
  cases hd with
  | same hrules hnode => rw [hnode, hrules, h]
  | added r hrules hnode =>
    have hids := hfiled'.ids
    rw [hrules] at hids ⊢
    rw [hnode]
    apply children_writeDbRule_of_notMem hids h
    exact hflat' r (by simp [hrules])
  | removed r hr hrules hnode =>
    rw [hnode, hrules, deleteDbRule, rulePath_singleton (hflat r hr), Tree.children_rm_singleton, h]
    exact hfiled.eraseP_entries hr
  | cleared hrules hnode =>
    rw [hnode, hrules, deleteDbRules, Tree.children_rm_nil, List.map_nil]
  | rewritten hrules hnode =>
    obtain ⟨new,hnew⟩ := hrules
    have hids := hfiled'.ids
    have hflatNew : ∀ r ∈ new, '/' ∉ r.id.toList := fun r hr => hflat' r (by simp [← hnew, hr])
    rw [hnode, ← hnew, writeDbRules, List.foldl_append]
    rw [← hnew] at hids
    apply children_writeDbRules_new hids _ hflatNew
    exact children_writeDbRules_old hfiled.ids h hflat fun _ hr => hr

end Entries

end Xctools.Xcpmd
