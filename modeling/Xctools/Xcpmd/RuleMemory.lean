import Mathlib.Data.List.Flatten
import Xctools.Xcpmd.ListHeads
import Xctools.Xcpmd.VarCache

/-! The memory of the rules, `rules.c`. A rule owns its conditions, its actions and their arguments, each in a list of
its own, and every condition is also in the list of those that listen to its event. A rule that is deleted is taken off
the counts of the variables that its arguments name. -/
namespace Xctools.Xcpmd
open Machine

section Code

/-- What an argument holds: a value, or a pointer to a string or to the name of a variable. -/
inductive ArgData
  | value
  | str (text : ℕ)
  | var (name : ℕ)
  deriving DecidableEq, Repr

/-- What a piece of memory is: the head of a list, by itself or within a structure, a string, or one of the structures
with what it points to. A structure begins with its place in a list; the heads of its own lists follow. -/
inductive Body
  | head
  | text (chars : String)
  | rule (id : ℕ)
  | condition (listeners : ℕ)
  | action
  | arg (held : ArgData)
  | listener (condition : ℕ)
  deriving DecidableEq, Repr

abbrev Memory := ListHeads Body

/-! `&rule->conditions.list`, `&rule->actions.list`, `&rule->undos.list`, and `&condition->args.list` or that of an
action. -/
def conditionsOf (rule : ℕ) : ℕ := rule + 1
def actionsOf (rule : ℕ) : ℕ := rule + 2
def undosOf (rule : ℕ) : ℕ := rule + 3
def argsOf (item : ℕ) : ℕ := item + 1

/-- `free` of a structure, with all that is in it. -/
def freeAll : List ℕ → Memory → Outcome Memory
  | [], h => .ok h
  | a :: as, h => do freeAll as (← h.release a)

/-- One round of the loops that free the arguments. -/
def deleteArg (posj : ℕ) (h : Memory) : Outcome Memory := do
  let arg ← h.read (some posj)
  let h ← match arg.data with
    | .arg (.str text) => h.release text
    | .arg (.var name) => h.release name
    | _ => .ok h
  let h ← listDel h posj
  h.release posj

/-- The loop of `delete_condition_from_listeners`. -/
def unlisten (condition listeners : ℕ) : ℕ → Memory → Option ℕ → Option ℕ → Outcome Memory
  | 0, _, _, _ => .error .loop
  | _ + 1, _, none, _ => .error .null
  | k + 1, h, some node, tmp =>
    if node = listeners then .ok h
    else do
      let x ← h.read (some node)
      if x.data = .listener condition then
        let h ← listDel h node
        h.release node
      else
        let next ← h.read tmp
        unlisten condition listeners k h tmp next.next

variable (k : ℕ)

/-- `delete_condition_from_listeners`. -/
def Memory.deleteConditionFromListeners (condition listeners : ℕ) (h : Memory) : Outcome Memory := do
  let head ← h.read (some listeners)
  let first ← h.read head.next
  unlisten condition listeners k h head.next first.next

/-- One round of the loop over the conditions. -/
def deleteCondition (posi : ℕ) (h : Memory) : Outcome Memory := do
  let condition ← h.read (some posi)
  match condition.data with
  | .condition listeners => do
    let h ← Memory.deleteConditionFromListeners k posi listeners h
    let h ← listForEachSafe id deleteArg (argsOf posi) k h
    let h ← listDel h posi
    freeAll [posi,argsOf posi] h
  | _ => .error .wild

/-- One round of the loops over the actions and the undos. -/
def deleteAction (posi : ℕ) (h : Memory) : Outcome Memory := do
  let h ← listForEachSafe id deleteArg (argsOf posi) k h
  let h ← listDel h posi
  freeAll [posi,argsOf posi] h

variable (parseArg : String → Option Arg)

/-- One round of the inner loops of `dec_variable_refs`. -/
def decArgRef (h : Memory) (vars : VarStore) (posj : ℕ) : Outcome VarStore := do
  let arg ← h.read (some posj)
  match arg.data with
  | .arg (.var name) => do
    let text ← h.read (some name)
    match text.data with
    | .text chars => changeRef parseArg (-1) vars chars
    | _ => .error .wild
  | _ => .ok vars

/-- One round of its outer loops. -/
def decItemRefs (h : Memory) (vars : VarStore) (posi : ℕ) : Outcome VarStore := do
  (← listForEach h (argsOf posi) k).foldlM (decArgRef parseArg h) vars

/-- `dec_variable_refs`. -/
def Memory.decVariableRefs (h : Memory) (rule : ℕ) (vars : VarStore) : Outcome VarStore := do
  let vars ← (← listForEach h (conditionsOf rule) k).foldlM (decItemRefs k parseArg h) vars
  let vars ← (← listForEach h (actionsOf rule) k).foldlM (decItemRefs k parseArg h) vars
  (← listForEach h (undosOf rule) k).foldlM (decItemRefs k parseArg h) vars

/-- What `delete_rule` frees of a rule, once it is in no list. -/
def Memory.freeRule (rule : ℕ) (h : Memory) : Outcome Memory := do
  let h ← listForEachSafe id (deleteCondition k) (conditionsOf rule) k h
  let h ← listForEachSafe id (deleteAction k) (actionsOf rule) k h
  let h ← listForEachSafe id (deleteAction k) (undosOf rule) k h
  let node ← h.read (some rule)
  let h ← match node.data with
    | .rule id => h.release id
    | _ => .error .wild
  freeAll [rule,conditionsOf rule,actionsOf rule,undosOf rule] h

/-- `delete_rule`. -/
def Memory.deleteRule (rules rule : ℕ) (s : Memory × VarStore) : Outcome (Memory × VarStore) := do
  let node ← s.1.read (some rule)
  let (h,vars) ← if node.prev.isSome && node.next.isSome then do
      let h ← listDel s.1 rule
      let vars ← Memory.decVariableRefs k parseArg h rule s.2
      .ok (h,vars)
    else .ok s
  let h ← Memory.freeRule k rule h
  let h ← if (← listForEach h rules k) = [] then initListHead h rules else .ok h
  return (h,vars)

/-- `delete_rules`. -/
def Memory.deleteRules (rules : ℕ) (s : Memory × VarStore) : Outcome (Memory × VarStore) :=
  listForEachSafe Prod.fst (Memory.deleteRule k parseArg rules) rules k s

end Code

section Freeing

/-- These nodes, and no others, have been freed. -/
structure Frees (h : Memory) (R : Rings) (D : List ℕ) (h' : Memory) : Prop where
  realizes : Realizes h' (R.without D)
  data : ∀ x, x ∉ D → h'.dataOf x = h.dataOf x
  domain : ∀ x, (h' x).isSome ↔ (h x).isSome ∧ x ∉ D

variable {h h₁ h₂ h' : Memory} {R : Rings} {D E : List ℕ} {a b x k : ℕ} {l m : List ℕ}

lemma Frees.refl (hR : Realizes h R) : Frees h R [] h :=
  ⟨by rwa [Rings.without_nil],fun _ _ => rfl,fun _ => by simp⟩

lemma Frees.trans (hD : Frees h R D h₁) (hE : Frees h₁ (R.without D) E h₂) : Frees h R (D ++ E) h₂ where
  realizes := Rings.without_without ▸ hE.realizes
  data x hx := by
    have hxD : x ∉ D := fun hmem => hx (List.mem_append_left _ hmem)
    have hxE : x ∉ E := fun hmem => hx (List.mem_append_right _ hmem)
    rw [hE.data x hxE, hD.data x hxD]
  domain x := by rw [hE.domain, hD.domain, List.mem_append, not_or, and_assoc]

lemma Frees.congr (hD : Frees h R D h') (hDE : ∀ x, x ∈ D ↔ x ∈ E) : Frees h R E h' where
  realizes := Rings.without_congr hDE ▸ hD.realizes
  data x hx := hD.data x fun hmem => hx ((hDE x).mp hmem)
  domain x := by rw [hD.domain, hDE]

lemma release_frees (hsome : (h x).isSome) (hR : Realizes (h.erase x) (R.without [x])) :
    h.release x = .ok (h.erase x) ∧ Frees h R [x] (h.erase x) := by
  refine ⟨Heap.release_some hsome,hR,fun y hy => ?_,fun y => ?_⟩
  · have hne : y ≠ x := fun heq => hy (by simp [heq])
    simp [Heap.dataOf, Heap.erase, hne]
  · rw [Heap.isSome_erase, List.mem_singleton, and_comm]

lemma release_loose_frees (hR : Realizes h R) (hx : x ∈ R.loose) :
    h.release x = .ok (h.erase x) ∧ Frees h R [x] (h.erase x) :=
  release_frees ((hR.allocated x).mpr (.inl hx)) (hR.release_loose hx)

lemma release_head_frees (hR : Realizes h R) (ha : R.ring a = some []) :
    h.release a = .ok (h.erase a) ∧ Frees h R [a] (h.erase a) :=
  release_frees (hR.isSome_of_mem_nodes (Rings.nodes_some ha ▸ List.mem_cons_self)) (hR.release_head ha)

/-- `list_del` and `free` of an entry. -/
lemma listDel_frees (hR : Realizes h R) (ha : R.ring a = some (l ++ x :: m)) :
    ∃ h₁ h', listDel h x = .ok h₁ ∧ h₁.release x = .ok h' ∧ Frees h R [x] h' := by
  obtain ⟨h₁,hok,hout⟩ := listDel_realizes hR ha
  have hx : (h₁ x).isSome := (hout.realizes.allocated x).mpr (.inl (hR.mem_loose_set ha))
  obtain ⟨hrelease,hfrees⟩ := release_frees hx (R := R) (hR.release_entry ha hout.realizes)
  refine ⟨h₁,_,hok,hrelease,hfrees.realizes,fun y hy => ?_,fun y => ?_⟩
  · rw [hfrees.data y hy, hout.data_eq]
  · rw [hfrees.domain, hout.domain]

/-- The entries of a list are freed one after the other, each with what it owns, by rounds that keep what is known of
the rest of the state. -/
lemma forEach_frees_of {ι σ : Type} {heads : σ → Memory} {s : σ} {J : List ι → σ → Prop} {node : ι → ℕ}
    {nodes : ι → List ℕ} {body : ℕ → σ → Outcome σ} {xs : List ι} (hR : Realizes (heads s) R)
    (hring : R.ring a = some (xs.map node)) (hmem : ∀ x ∈ xs, node x ∈ nodes x) (hd : (xs.flatMap nodes).Nodup)
    (ha : a ∉ xs.flatMap nodes) (hk : xs.length < k) (hJ : J [] s)
    (hbody : ∀ done x todo, xs = done ++ x :: todo → ∀ s₁, J done s₁ →
      Frees (heads s) R (done.flatMap nodes) (heads s₁) →
      (R.without (done.flatMap nodes)).ring a = some (node x :: todo.map node) →
      ∃ s₂, body (node x) s₁ = .ok s₂ ∧ J (done ++ [x]) s₂ ∧
        Frees (heads s₁) (R.without (done.flatMap nodes)) (nodes x) (heads s₂)) :
    ∃ s', listForEachSafe heads body a k s = .ok s' ∧ J xs s' ∧ Frees (heads s) R (xs.flatMap nodes) (heads s') := by
  let inv (l : List ℕ) (s' : σ) : Prop :=
    ∃ done todo, xs = done ++ todo ∧ l = todo.map node ∧ J done s' ∧ Frees (heads s) R (done.flatMap nodes) (heads s')
  have hleft : ∀ done todo, xs = done ++ todo → (R.without (done.flatMap nodes)).ring a = some (todo.map node) := by
    rintro done todo rfl
    rw [List.flatMap_append] at hd ha
    have hout := (List.nodup_append'.mp hd).2.2
    have hadone : a ∉ done.flatMap nodes := fun hmem => ha (List.mem_append_left _ hmem)
    have hgone : (done.map node).filter (· ∉ done.flatMap nodes) = [] := List.filter_eq_nil_iff.mpr fun y hy => by
      obtain ⟨x,hx,rfl⟩ := List.mem_map.mp hy
      simpa using ⟨x,hx,hmem x (List.mem_append_left _ hx)⟩
    have hstay : (todo.map node).filter (· ∉ done.flatMap nodes) = todo.map node := List.filter_eq_self.mpr fun y hy => by
      obtain ⟨x,hx,rfl⟩ := List.mem_map.mp hy
      refine decide_eq_true fun hdone => hout hdone ?_
      exact List.mem_flatMap.mpr ⟨x,hx,hmem x (List.mem_append_right _ hx)⟩
    simp only [Rings.without, if_neg hadone, hring, Option.map_some, List.map_append, List.filter_append, hgone, hstay,
      List.nil_append]
  have hlists : ∀ l s', inv l s' → ∃ R p, Realizes (heads s') R ∧ R.ring a = some (p ++ l) := by
    rintro l s' ⟨done,todo,hxs,rfl,-,hfrees⟩
    exact ⟨_,[],hfrees.realizes,hleft done todo hxs⟩
  have hround : ∀ x l s₁, inv (x :: l) s₁ → ∃ s₂, body x s₁ = .ok s₂ ∧ inv l s₂ := by
    rintro x l s₁ ⟨done,todo,hxs,hl,hJ,hfrees⟩
    cases todo with
    | nil => cases hl
    | cons y todo =>
      obtain ⟨rfl,rfl⟩ := List.cons.inj hl
      obtain ⟨s₂,hok,hJ₂,hmore⟩ := hbody done y todo hxs s₁ hJ hfrees (hleft done _ hxs)
      exact ⟨s₂,hok,done ++ [y],todo,by simp [hxs],rfl,hJ₂,by simpa using hfrees.trans hmore⟩
  obtain ⟨s',hok,done,todo,hxs,hnil,hJ,hfrees⟩ := @listForEachSafe_rule Body σ heads body a inv _ _ ⟨R,hR,hring⟩ hlists
    hround ⟨[],xs,rfl,rfl,hJ,.refl hR⟩ _ (by simpa using hk)
  obtain rfl : todo = [] := by simpa using hnil.symm
  rw [List.append_nil] at hxs
  exact ⟨s',hok,hxs ▸ hJ,hxs ▸ hfrees⟩

lemma forEach_frees {ι : Type} {node : ι → ℕ} {nodes : ι → List ℕ} {body : ℕ → Memory → Outcome Memory} {xs : List ι}
    (hR : Realizes h R) (hring : R.ring a = some (xs.map node)) (hmem : ∀ x ∈ xs, node x ∈ nodes x)
    (hd : (xs.flatMap nodes).Nodup) (ha : a ∉ xs.flatMap nodes) (hk : xs.length < k)
    (hbody : ∀ done x todo, xs = done ++ x :: todo → ∀ h₁, Frees h R (done.flatMap nodes) h₁ →
      (R.without (done.flatMap nodes)).ring a = some (node x :: todo.map node) →
      ∃ h₂, body (node x) h₁ = .ok h₂ ∧ Frees h₁ (R.without (done.flatMap nodes)) (nodes x) h₂) :
    ∃ h', listForEachSafe id body a k h = .ok h' ∧ Frees h R (xs.flatMap nodes) h' := by
  obtain ⟨h',hok,-,hfrees⟩ := @forEach_frees_of _ _ _ ι Memory id h (fun _ _ => True) node nodes body xs hR hring hmem hd
    ha hk trivial fun done x todo hxs h₁ _ hfrees hleft => by
      obtain ⟨h₂,hok,hmore⟩ := hbody done x todo hxs h₁ hfrees hleft
      exact ⟨h₂,hok,trivial,hmore⟩
  exact ⟨h',hok,hfrees⟩

end Freeing

section Blocks

/-- The string that an argument owns. -/
def ArgData.text : ArgData → Option ℕ
  | value => none
  | str text => some text
  | var name => some name

/-- An argument in memory, with the characters of its string. -/
structure ArgBlock where
  node : ℕ
  arg : ArgData
  chars : String := ""
  deriving DecidableEq, Repr

/-- The variable that an argument names. -/
def ArgBlock.varName (x : ArgBlock) : Option String :=
  match x.arg with
  | .var _ => some x.chars
  | _ => none

/-- An action, or what a condition has in common with one. -/
structure ItemBlock where
  node : ℕ
  args : List ArgBlock
  deriving DecidableEq, Repr

/-- A condition, with the place that it has among the listeners of its event. -/
structure ConditionBlock extends ItemBlock where
  listeners : ℕ
  listener : ℕ
  deriving DecidableEq, Repr

structure RuleBlock where
  node : ℕ
  id : ℕ
  name : String := ""
  conditions : List ConditionBlock := []
  actions : List ItemBlock := []
  undos : List ItemBlock := []
  deriving DecidableEq, Repr

def ArgBlock.bodies (x : ArgBlock) : List (ℕ × Body) :=
  (x.node,.arg x.arg) :: x.arg.text.toList.map fun t => (t,.text x.chars)

def ItemBlock.bodies (x : ItemBlock) : List (ℕ × Body) :=
  (x.node,.action) :: (argsOf x.node,.head) :: x.args.flatMap ArgBlock.bodies

def ConditionBlock.bodies (x : ConditionBlock) : List (ℕ × Body) :=
  (x.node,.condition x.listeners) :: (argsOf x.node,.head) :: (x.listener,.listener x.node) :: x.args.flatMap ArgBlock.bodies

/-- All that a rule owns. -/
def RuleBlock.bodies (x : RuleBlock) : List (ℕ × Body) :=
  [(x.node,.rule x.id),(conditionsOf x.node,.head),(actionsOf x.node,.head),(undosOf x.node,.head),(x.id,.text x.name)] ++
    x.conditions.flatMap ConditionBlock.bodies ++ x.actions.flatMap ItemBlock.bodies ++ x.undos.flatMap ItemBlock.bodies

def ArgBlock.nodes (x : ArgBlock) : List ℕ := x.bodies.map Prod.fst
def ItemBlock.nodes (x : ItemBlock) : List ℕ := x.bodies.map Prod.fst
def ConditionBlock.nodes (x : ConditionBlock) : List ℕ := x.bodies.map Prod.fst
def RuleBlock.nodes (x : RuleBlock) : List ℕ := x.bodies.map Prod.fst

def ItemBlock.rings (x : ItemBlock) : List (ℕ × List ℕ) := [(argsOf x.node,x.args.map ArgBlock.node)]

/-- The lists of a rule. -/
def RuleBlock.rings (x : RuleBlock) : List (ℕ × List ℕ) :=
  [(conditionsOf x.node,x.conditions.map fun c => c.node),(actionsOf x.node,x.actions.map ItemBlock.node),
    (undosOf x.node,x.undos.map ItemBlock.node)] ++
    x.conditions.flatMap (fun c => c.rings) ++ x.actions.flatMap ItemBlock.rings ++ x.undos.flatMap ItemBlock.rings

/-- The memory has these bodies, the strings among them loose, and these lists. -/
structure Owns (h : Memory) (R : Rings) (bodies : List (ℕ × Body)) (rings : List (ℕ × List ℕ)) : Prop where
  data : ∀ p ∈ bodies, h.dataOf p.1 = some p.2
  loose : ∀ t chars, (t,Body.text chars) ∈ bodies → t ∈ R.loose
  rings : ∀ p ∈ rings, R.ring p.1 = some p.2

variable {h h₁ h₂ h' : Memory} {R : Rings} {D : List ℕ} {a b k : ℕ} {l m : List ℕ} {bodies bodies' : List (ℕ × Body)}
  {rings rings' : List (ℕ × List ℕ)}

lemma Owns.mono (ho : Owns h R bodies rings) (hbodies : bodies' ⊆ bodies) (hrings : rings' ⊆ rings) :
    Owns h R bodies' rings' :=
  ⟨fun p hp => ho.data p (hbodies hp),fun t chars ht => ho.loose t chars (hbodies ht),fun p hp => ho.rings p (hrings hp)⟩

/-- What is freed elsewhere is nothing to them. -/
lemma Owns.frees (ho : Owns h R bodies rings) (hf : Frees h R D h') (hbodies : ∀ x ∈ bodies.map Prod.fst, x ∉ D)
    (hrings : ∀ p ∈ rings, ∀ x ∈ p.1 :: p.2, x ∉ D) : Owns h' (R.without D) bodies rings where
  data p hp := (hf.data p.1 (hbodies _ (List.mem_map_of_mem hp))).trans (ho.data p hp)
  loose t chars ht := Rings.mem_loose_without (ho.loose t chars ht) (hbodies t (List.mem_map.mpr ⟨_,ht,rfl⟩))
  rings p hp := Rings.ring_without (ho.rings p hp) (hrings p hp)

lemma read_of_dataOf {x : ℕ} {d : Body} (hx : h.dataOf x = some d) : ∃ node, h.read (some x) = .ok node ∧ node.data = d := by
  obtain ⟨node,hnode,hd⟩ := Option.map_eq_some_iff.mp hx
  exact ⟨node,Heap.read_some hnode,hd⟩

lemma ArgBlock.node_mem (x : ArgBlock) : x.node ∈ x.nodes := List.mem_cons_self

lemma ArgBlock.nodes_eq (x : ArgBlock) : x.nodes = x.node :: x.arg.text.toList := by
  cases htext : x.arg.text <;> simp [nodes, bodies, htext]

lemma deleteArg_frees {x : ArgBlock} (hR : Realizes h R) (ha : R.ring a = some (x.node :: m)) (ho : Owns h R x.bodies []) :
    ∃ h', deleteArg x.node h = .ok h' ∧ Frees h R x.nodes h' := by
  obtain ⟨node,hread,hdata⟩ := read_of_dataOf (ho.data _ List.mem_cons_self)
  rw [x.nodes_eq, deleteArg, hread, ok_bind, hdata]
  -- the string of the argument is freed first
  have hstring : ∀ t, x.arg.text = some t → ∃ h₁ h₂ h', h.release t = .ok h₁ ∧ listDel h₁ x.node = .ok h₂ ∧
      h₂.release x.node = .ok h' ∧ Frees h R [x.node,t] h' := fun t htext => by
    have ht : t ∈ R.loose := ho.loose t x.chars (by simp [ArgBlock.bodies, htext])
    obtain ⟨htext',hfrees₁⟩ := release_loose_frees hR ht
    have hkept : (R.without [t]).ring a = some (x.node :: m) := by
      refine Rings.ring_without ha fun y hy => ?_
      rw [List.mem_singleton]
      rintro rfl
      exact hR.loose a y (Rings.nodes_some ha ▸ hy) ht
    obtain ⟨h₁,h',hdel,hrelease,hfrees₂⟩ := listDel_frees (l := []) hfrees₁.realizes hkept
    exact ⟨_,h₁,h',htext',hdel,hrelease,(hfrees₁.trans hfrees₂).congr (by simp [or_comm])⟩
  cases harg : x.arg with
  | value =>
    obtain ⟨h₁,h',hdel,hrelease,hfrees⟩ := listDel_frees (l := []) hR ha
    exact ⟨h',by simpa [hdel] using hrelease,hfrees⟩
  | str t =>
    obtain ⟨h₁,h₂,h',htext,hdel,hrelease,hfrees⟩ := hstring t (by rw [harg, ArgData.text])
    exact ⟨h',by simpa [htext, hdel] using hrelease,hfrees⟩
  | var t =>
    obtain ⟨h₁,h₂,h',htext,hdel,hrelease,hfrees⟩ := hstring t (by rw [harg, ArgData.text])
    exact ⟨h',by simpa [htext, hdel] using hrelease,hfrees⟩

lemma deleteArgs_frees {args : List ArgBlock} (hR : Realizes h R) (ha : R.ring a = some (args.map ArgBlock.node))
    (ho : Owns h R (args.flatMap ArgBlock.bodies) []) (hd : (args.flatMap ArgBlock.nodes).Nodup)
    (hout : a ∉ args.flatMap ArgBlock.nodes) (hk : args.length < k) :
    ∃ h', listForEachSafe id deleteArg a k h = .ok h' ∧ Frees h R (args.flatMap ArgBlock.nodes) h' := by
  refine forEach_frees hR ha (fun x _ => x.node_mem) hd hout hk fun done x todo hxs h₁ hfrees hring => ?_
  subst hxs
  have hown : Owns h R x.bodies [] := ho.mono (fun p hp => List.mem_flatMap.mpr ⟨x,by simp,hp⟩) (List.Subset.refl _)
  have hapart : ∀ y ∈ x.bodies.map Prod.fst, y ∉ done.flatMap ArgBlock.nodes := by
    intro y hy hdone
    rw [List.flatMap_append] at hd
    exact (List.nodup_append'.mp hd).2.2 hdone (List.mem_flatMap.mpr ⟨x,List.mem_cons_self,hy⟩)
  exact deleteArg_frees hfrees.realizes hring (hown.frees hfrees hapart (by simp))

lemma ItemBlock.nodes_eq (x : ItemBlock) : x.nodes = x.node :: argsOf x.node :: x.args.flatMap ArgBlock.nodes := by
  simp only [nodes, bodies, List.map_cons, List.map_flatMap]
  rfl

/-- The arguments of an item are freed, and then the item with the head of their list. -/
lemma freeItem_frees {x : ItemBlock} (hR : Realizes h R) (hb : R.ring b = some (x.node :: m))
    (hargs : R.ring (argsOf x.node) = some (x.args.map ArgBlock.node)) (ho : Owns h R (x.args.flatMap ArgBlock.bodies) [])
    (hd : x.nodes.Nodup) (hout : ∀ y ∈ b :: m, y ∉ x.nodes) (hk : x.args.length < k) :
    ∃ h₁ h₂ h', listForEachSafe id deleteArg (argsOf x.node) k h = .ok h₁ ∧ listDel h₁ x.node = .ok h₂ ∧
      freeAll [x.node,argsOf x.node] h₂ = .ok h' ∧ Frees h R x.nodes h' := by
  rw [x.nodes_eq] at hd hout ⊢
  obtain ⟨hnode,hd⟩ := List.nodup_cons.mp hd
  obtain ⟨hhead,hd⟩ := List.nodup_cons.mp hd
  obtain ⟨h₁,hok₁,hfrees₁⟩ := deleteArgs_frees hR hargs ho hd hhead hk
  have hkept : (R.without (x.args.flatMap ArgBlock.nodes)).ring b = some (x.node :: m) := by
    refine Rings.ring_without hb fun y hy hmem => ?_
    rcases List.mem_cons.mp hy with rfl | hy
    · exact hout y List.mem_cons_self (by simp [hmem])
    rcases List.mem_cons.mp hy with rfl | hy
    · exact hnode (List.mem_cons_of_mem _ hmem)
    · exact hout y (List.mem_cons_of_mem b hy) (by simp [hmem])
  obtain ⟨h₂,h₃,hok₂,hok₃,hfrees₂⟩ := listDel_frees (l := []) hfrees₁.realizes hkept
  have hboth := hfrees₁.trans hfrees₂
  have hempty : (R.without (x.args.flatMap ArgBlock.nodes ++ [x.node])).ring (argsOf x.node) = some [] := by
    refine Rings.ring_without_all hargs (fun hmem => ?_) fun y hy => ?_
    · rcases List.mem_append.mp hmem with hmem | hmem
      · exact hhead hmem
      · exact hnode (List.mem_cons.mpr (.inl (List.mem_singleton.mp hmem).symm))
    · obtain ⟨z,hz,rfl⟩ := List.mem_map.mp hy
      exact List.mem_append_left _ (List.mem_flatMap.mpr ⟨z,hz,z.node_mem⟩)
  obtain ⟨hok₄,hfrees₃⟩ := release_head_frees hboth.realizes hempty
  refine ⟨h₁,h₂,_,hok₁,hok₂,?_,(hboth.trans hfrees₃).congr fun y => ?_⟩
  · simp only [freeAll, hok₃, ok_bind, hok₄]
  · simp only [List.mem_append, List.mem_cons]
    tauto

lemma deleteAction_frees {x : ItemBlock} (hR : Realizes h R) (hb : R.ring b = some (x.node :: m))
    (ho : Owns h R x.bodies x.rings) (hd : x.nodes.Nodup) (hout : ∀ y ∈ b :: m, y ∉ x.nodes) (hk : x.args.length < k) :
    ∃ h', deleteAction k x.node h = .ok h' ∧ Frees h R x.nodes h' := by
  have hargs : Owns h R (x.args.flatMap ArgBlock.bodies) [] :=
    ho.mono (fun p hp => List.mem_cons_of_mem _ (List.mem_cons_of_mem _ hp)) (List.nil_subset _)
  obtain ⟨h₁,h₂,h',hok₁,hok₂,hok₃,hfrees⟩ :=
    freeItem_frees hR hb (ho.rings _ List.mem_cons_self) hargs hd hout hk
  exact ⟨h',by rw [deleteAction, hok₁, ok_bind, hok₂, ok_bind, hok₃],hfrees⟩

/-- The loop stops at the node of the condition. -/
lemma unlisten_frees {p q : List ℕ} {c y : ℕ} (hR : Realizes h R) (ha : R.ring a = some (l ++ p ++ y :: q))
    (hy : h.dataOf y = some (.listener c)) (hp : ∀ x ∈ p, h.dataOf x ≠ some (.listener c)) (hk : p.length < k) :
    ∃ h', unlisten c a k h (some ((p ++ y :: q).headD a)) (some ((p ++ y :: q).tail.headD a)) = .ok h' ∧ Frees h R [y] h' := by
  have hd : (a :: (l ++ p ++ y :: q)).Nodup := Rings.nodes_some ha ▸ hR.nodup a
  induction p generalizing l k with
  | nil =>
    obtain ⟨k,rfl⟩ := Nat.exists_eq_succ_of_ne_zero (Nat.ne_of_gt hk)
    have hne : y ≠ a := fun heq => (List.nodup_cons.mp hd).1 (by simp [heq])
    obtain ⟨node,hread,hdata⟩ := read_of_dataOf hy
    obtain ⟨h₁,h',hdel,hrelease,hfrees⟩ := listDel_frees (l := l) hR (by simpa using ha)
    refine ⟨h',?_,hfrees⟩
    rw [List.nil_append, List.headD_cons, unlisten, if_neg hne, hread, ok_bind, if_pos hdata, hdel, ok_bind, hrelease]
  | cons x p ih =>
    obtain ⟨k,rfl⟩ := Nat.exists_eq_succ_of_ne_zero (Nat.ne_of_gt (Nat.zero_lt_of_lt hk))
    have hne : x ≠ a := fun heq => (List.nodup_cons.mp hd).1 (by simp [heq])
    have hring : R.ring a = some (l ++ x :: (p ++ y :: q)) := by simpa using ha
    obtain ⟨hnext,hprev⟩ := hR.pointers hring
    obtain ⟨d,hdata,hread⟩ := read_eq h hnext hprev
    have hother : d ≠ .listener c := fun heq => hp x List.mem_cons_self (heq ▸ hdata)
    obtain ⟨h',hok,hfrees⟩ := ih (l := l ++ [x]) (k := k) (by simpa using ha)
      (fun z hz => hp z (List.mem_cons_of_mem x hz)) (by simpa using hk) (by simpa using hd)
    refine ⟨h',?_,hfrees⟩
    -- the node behind is read before going on to it
    obtain ⟨z,rest,hz⟩ := List.exists_cons_of_ne_nil (show p ++ y :: q ≠ [] by simp)
    rw [hz] at hok hring
    obtain ⟨hnext',hprev'⟩ := hR.pointers (l := l ++ [x]) (x := z) (m := rest) (by simpa using hring)
    obtain ⟨d',-,hread'⟩ := read_eq h hnext' hprev'
    rw [List.cons_append, hz, List.headD_cons, List.tail_cons, List.headD_cons, unlisten, if_neg hne, hread, ok_bind,
      if_neg hother, hread', ok_bind]
    exact hok

lemma Memory.deleteConditionFromListeners_frees {p q : List ℕ} {c y : ℕ} (hR : Realizes h R) (ha : R.ring a = some (p ++ y :: q))
    (hy : h.dataOf y = some (.listener c)) (hp : ∀ x ∈ p, h.dataOf x ≠ some (.listener c)) (hk : p.length < k) :
    ∃ h', Memory.deleteConditionFromListeners k c a h = .ok h' ∧ Frees h R [y] h' := by
  obtain ⟨h',hok,hfrees⟩ := unlisten_frees (l := []) hR (by simpa using ha) hy hp hk
  refine ⟨h',?_,hfrees⟩
  obtain ⟨hnext,hprev⟩ := hR.head_pointers ha
  obtain ⟨d,-,hread⟩ := read_eq h hnext hprev
  obtain ⟨z,rest,hz⟩ := List.exists_cons_of_ne_nil (show p ++ y :: q ≠ [] by simp)
  rw [hz] at hok ha
  obtain ⟨hnext',hprev'⟩ := hR.pointers (l := []) ha
  obtain ⟨d',-,hread'⟩ := read_eq h hnext' hprev'
  rw [Memory.deleteConditionFromListeners, hread, ok_bind, hz, List.headD_cons, hread', ok_bind]
  exact hok

lemma ConditionBlock.nodes_eq (x : ConditionBlock) :
    x.nodes = x.node :: argsOf x.node :: x.listener :: x.args.flatMap ArgBlock.nodes := by
  simp only [nodes, bodies, List.map_cons, List.map_flatMap]
  rfl

/-- The condition is found among the listeners of its event. -/
def ConditionBlock.Listens (x : ConditionBlock) (h : Memory) (R : Rings) (k : ℕ) : Prop :=
  ∃ p q, R.ring x.listeners = some (p ++ x.listener :: q) ∧ (∀ y ∈ p, h.dataOf y ≠ some (.listener x.node)) ∧ p.length < k

lemma deleteCondition_frees {x : ConditionBlock} (hR : Realizes h R) (hb : R.ring b = some (x.node :: m))
    (ho : Owns h R x.bodies x.rings) (hlisten : x.Listens h R k) (hd : x.nodes.Nodup) (hout : ∀ y ∈ b :: m, y ∉ x.nodes)
    (hk : x.args.length < k) : ∃ h', deleteCondition k x.node h = .ok h' ∧ Frees h R x.nodes h' := by
  obtain ⟨p,q,hlisteners,hp,hpk⟩ := hlisten
  obtain ⟨node,hread,hdata⟩ := read_of_dataOf (ho.data _ List.mem_cons_self)
  have hplace : h.dataOf x.listener = some (.listener x.node) := ho.data (x.listener,_) (by simp [ConditionBlock.bodies])
  obtain ⟨h₁,hok₁,hfrees₁⟩ := Memory.deleteConditionFromListeners_frees hR hlisteners hplace hp hpk
  rw [x.nodes_eq] at hd hout ⊢
  obtain ⟨hnode,hd⟩ := List.nodup_cons.mp hd
  obtain ⟨hhead,hd⟩ := List.nodup_cons.mp hd
  obtain ⟨hlistener,hd⟩ := List.nodup_cons.mp hd
  have hb' : (R.without [x.listener]).ring b = some (x.node :: m) := by
    refine Rings.ring_without hb fun y hy hmem => ?_
    obtain rfl := List.mem_singleton.mp hmem
    rcases List.mem_cons.mp hy with rfl | hy
    · exact hout _ List.mem_cons_self (by simp)
    rcases List.mem_cons.mp hy with heq | hy
    · exact hnode (by simp [← heq])
    · exact hout _ (List.mem_cons_of_mem b hy) (by simp)
  have hargs : Owns h R (x.args.flatMap ArgBlock.bodies) x.rings :=
    ho.mono (fun p hp => List.mem_cons_of_mem _ (List.mem_cons_of_mem _ (List.mem_cons_of_mem _ hp))) (List.Subset.refl _)
  have hnodes : x.toItemBlock.nodes.Nodup := by
    rw [ItemBlock.nodes_eq]
    refine List.nodup_cons.mpr ⟨fun hmem => hnode ?_,List.nodup_cons.mpr ⟨fun hmem => hhead ?_,hd⟩⟩
    · rcases List.mem_cons.mp hmem with heq | hmem
      · exact List.mem_cons.mpr (.inl heq)
      · exact List.mem_cons_of_mem _ (List.mem_cons_of_mem _ hmem)
    · exact List.mem_cons_of_mem _ hmem
  have hapart : ∀ y ∈ x.toItemBlock.nodes, y ∉ [x.listener] := by
    intro y hy hmem
    obtain rfl := List.mem_singleton.mp hmem
    rw [ItemBlock.nodes_eq] at hy
    rcases List.mem_cons.mp hy with heq | hy
    · exact hnode (by simp [← heq])
    rcases List.mem_cons.mp hy with heq | hy
    · exact hhead (by simp [← heq])
    · exact hlistener hy
  have hsub : ∀ y ∈ (x.args.flatMap ArgBlock.bodies).map Prod.fst, y ∈ x.toItemBlock.nodes := by
    intro y hy
    rw [ItemBlock.nodes_eq]
    refine List.mem_cons_of_mem _ (List.mem_cons_of_mem _ ?_)
    rwa [List.map_flatMap] at hy
  have hown : Owns h₁ (R.without [x.listener]) (x.args.flatMap ArgBlock.bodies) x.rings := by
    refine hargs.frees hfrees₁ (fun y hy => hapart y (hsub y hy)) fun p hp y hy => hapart y ?_
    obtain rfl := List.mem_singleton.mp hp
    rw [ItemBlock.nodes_eq]
    rcases List.mem_cons.mp hy with rfl | hy
    · exact List.mem_cons_of_mem _ List.mem_cons_self
    · obtain ⟨z,hz,rfl⟩ := List.mem_map.mp hy
      exact List.mem_cons_of_mem _ (List.mem_cons_of_mem _ (List.mem_flatMap.mpr ⟨z,hz,z.node_mem⟩))
  obtain ⟨h₂,h₃,h',hok₂,hok₃,hok₄,hfrees₂⟩ := freeItem_frees (x := x.toItemBlock) hfrees₁.realizes hb'
    (hown.rings _ List.mem_cons_self) (hown.mono (List.Subset.refl _) (List.nil_subset _)) hnodes
    (fun y hy hmem => hout y hy (by
      rw [ItemBlock.nodes_eq] at hmem
      simp only [List.mem_cons] at hmem ⊢
      tauto)) hk
  refine ⟨h',?_,(hfrees₁.trans hfrees₂).congr fun y => ?_⟩
  · rw [deleteCondition, hread, ok_bind, hdata]
    simp only [hok₁, hok₂, hok₃, hok₄, ok_bind]
  · rw [ItemBlock.nodes_eq]
    simp only [List.mem_append, List.mem_cons, List.not_mem_nil, or_false]
    tauto

lemma ConditionBlock.Listens.frees {x : ConditionBlock} (hx : x.Listens h R k) (hf : Frees h R D h')
    (hhead : x.listeners ∉ D) (hnode : x.listener ∉ D) : x.Listens h' (R.without D) k := by
  obtain ⟨p,q,hring,hp,hk⟩ := hx
  refine ⟨p.filter (· ∉ D),q.filter (· ∉ D),?_,fun y hy => ?_,Nat.lt_of_le_of_lt (List.length_filter_le _ _) hk⟩
  · have hkeep : (x.listener :: q).filter (· ∉ D) = x.listener :: q.filter (· ∉ D) :=
      List.filter_cons_of_pos (by simpa using hnode)
    simp only [Rings.without, if_neg hhead, hring, Option.map_some, List.filter_append, hkeep]
  · obtain ⟨hy,hyD⟩ := List.mem_filter.mp hy
    rw [hf.data y (of_decide_eq_true hyD)]
    exact hp y hy

lemma ItemBlock.node_mem (x : ItemBlock) : x.node ∈ x.nodes := List.mem_cons_self

lemma ConditionBlock.node_mem (x : ConditionBlock) : x.node ∈ x.nodes := List.mem_cons_self

/-- The lists of an item consist of its own nodes. -/
lemma ItemBlock.mem_nodes_of_rings {x : ItemBlock} {p : ℕ × List ℕ} (hp : p ∈ x.rings) {y : ℕ} (hy : y ∈ p.1 :: p.2) :
    y ∈ argsOf x.node :: x.args.flatMap ArgBlock.nodes := by
  obtain rfl := List.mem_singleton.mp hp
  rcases List.mem_cons.mp hy with rfl | hy
  · exact List.mem_cons_self
  · obtain ⟨z,hz,rfl⟩ := List.mem_map.mp hy
    exact List.mem_cons_of_mem _ (List.mem_flatMap.mpr ⟨z,hz,z.node_mem⟩)

lemma ItemBlock.rings_subset {x : ItemBlock} {p : ℕ × List ℕ} (hp : p ∈ x.rings) : p.1 :: p.2 ⊆ x.nodes := by
  intro y hy
  rw [x.nodes_eq]
  exact List.mem_cons_of_mem _ (mem_nodes_of_rings hp hy)

lemma ConditionBlock.rings_subset {x : ConditionBlock} {p : ℕ × List ℕ} (hp : p ∈ x.rings) : p.1 :: p.2 ⊆ x.nodes := by
  intro y hy
  have hmem := ItemBlock.mem_nodes_of_rings hp hy
  rw [x.nodes_eq]
  simp only [List.mem_cons] at hmem ⊢
  tauto

/-- Parts of a list that share nothing. -/
lemma disjoint_of_split {ι : Type} {nodes : ι → List ℕ} {done todo : List ι} {x : ι}
    (hd : ((done ++ x :: todo).flatMap nodes).Nodup) : (nodes x).Nodup ∧ (nodes x).Disjoint (done.flatMap nodes) ∧
      (nodes x).Disjoint (todo.flatMap nodes) := by
  rw [List.flatMap_append, List.flatMap_cons] at hd
  obtain ⟨-,hd,hdone⟩ := List.nodup_append'.mp hd
  obtain ⟨hx,-,htodo⟩ := List.nodup_append'.mp hd
  exact ⟨hx,fun y hy hmem => hdone hmem (List.mem_append_left _ hy),htodo⟩

/-- The entries behind one of a list are none of its nodes. -/
lemma behind_not_mem {ι : Type} {node : ι → ℕ} {nodes : ι → List ℕ} {done todo : List ι} {x : ι} (hmem : ∀ x, node x ∈ nodes x)
    (hd : ((done ++ x :: todo).flatMap nodes).Nodup) (ha : a ∉ (done ++ x :: todo).flatMap nodes) :
    ∀ y ∈ a :: todo.map node, y ∉ nodes x := by
  obtain ⟨-,-,htodo⟩ := disjoint_of_split hd
  refine List.forall_mem_cons.mpr ⟨fun hax => ha (List.mem_flatMap.mpr ⟨x,by simp,hax⟩),fun y hy hyx => ?_⟩
  obtain ⟨z,hz,rfl⟩ := List.mem_map.mp hy
  exact htodo hyx (List.mem_flatMap.mpr ⟨z,hz,hmem z⟩)

lemma deleteActions_frees {xs : List ItemBlock} (hR : Realizes h R) (ha : R.ring a = some (xs.map ItemBlock.node))
    (ho : Owns h R (xs.flatMap ItemBlock.bodies) (xs.flatMap ItemBlock.rings)) (hd : (xs.flatMap ItemBlock.nodes).Nodup)
    (hout : a ∉ xs.flatMap ItemBlock.nodes) (hk : xs.length < k) (hargs : ∀ x ∈ xs, x.args.length < k) :
    ∃ h', listForEachSafe id (deleteAction k) a k h = .ok h' ∧ Frees h R (xs.flatMap ItemBlock.nodes) h' := by
  refine forEach_frees hR ha (fun x _ => x.node_mem) hd hout hk fun done x todo hxs h₁ hfrees hring => ?_
  subst hxs
  obtain ⟨hnodup,hdone,-⟩ := disjoint_of_split hd
  have hown : Owns h R x.bodies x.rings :=
    ho.mono (fun p hp => List.mem_flatMap.mpr ⟨x,by simp,hp⟩) fun p hp => List.mem_flatMap.mpr ⟨x,by simp,hp⟩
  exact deleteAction_frees hfrees.realizes hring
    (hown.frees hfrees (fun y hy => hdone hy) fun p hp y hy => hdone (ItemBlock.rings_subset hp hy)) hnodup
    (behind_not_mem ItemBlock.node_mem hd hout) (hargs x (by simp))

lemma deleteConditions_frees {xs : List ConditionBlock} (hR : Realizes h R) (ha : R.ring a = some (xs.map fun c => c.node))
    (ho : Owns h R (xs.flatMap ConditionBlock.bodies) (xs.flatMap fun c => c.rings))
    (hlisten : ∀ x ∈ xs, x.Listens h R k ∧ x.listeners ∉ xs.flatMap ConditionBlock.nodes)
    (hd : (xs.flatMap ConditionBlock.nodes).Nodup) (hout : a ∉ xs.flatMap ConditionBlock.nodes) (hk : xs.length < k)
    (hargs : ∀ x ∈ xs, x.args.length < k) : ∃ h', listForEachSafe id (deleteCondition k) a k h = .ok h' ∧
      Frees h R (xs.flatMap ConditionBlock.nodes) h' := by
  refine @forEach_frees _ _ _ _ ConditionBlock (fun c => c.node) ConditionBlock.nodes _ _ hR ha (fun x _ => x.node_mem) hd hout hk
    fun done x todo hxs h₁ hfrees hring => ?_
  subst hxs
  obtain ⟨hnodup,hdone,-⟩ := disjoint_of_split hd
  obtain ⟨hlistens,hhead⟩ := hlisten x (by simp)
  have hown : Owns h R x.bodies x.rings :=
    ho.mono (fun p hp => List.mem_flatMap.mpr ⟨x,by simp,hp⟩) fun p hp => List.mem_flatMap.mpr ⟨x,by simp,hp⟩
  have hlistener : x.listener ∈ x.nodes := by simp [x.nodes_eq]
  have hlistens' : x.Listens h₁ (R.without (done.flatMap ConditionBlock.nodes)) k := by
    refine hlistens.frees hfrees (fun hmem => hhead ?_) (hdone hlistener)
    rw [List.flatMap_append]
    exact List.mem_append_left _ hmem
  exact deleteCondition_frees hfrees.realizes hring
    (hown.frees hfrees (fun y hy => hdone hy) fun p hp y hy => hdone (ConditionBlock.rings_subset hp hy)) hlistens' hnodup
    (behind_not_mem ConditionBlock.node_mem hd hout) (hargs x (by simp))

lemma RuleBlock.nodes_eq (x : RuleBlock) : x.nodes =
    [x.node,conditionsOf x.node,actionsOf x.node,undosOf x.node,x.id] ++ x.conditions.flatMap ConditionBlock.nodes ++
      x.actions.flatMap ItemBlock.nodes ++ x.undos.flatMap ItemBlock.nodes := by
  simp only [nodes, bodies, List.map_append, List.map_flatMap]
  rfl

/-- What `freeAll` needs of the heads of empty lists. -/
lemma freeHeads_frees {as : List ℕ} (hR : Realizes h R) (has : ∀ a ∈ as, R.ring a = some []) (hd : as.Nodup) :
    ∃ h', freeAll as h = .ok h' ∧ Frees h R as h' := by
  induction as generalizing h R with
  | nil => exact ⟨h,rfl,.refl hR⟩
  | cons a as ih =>
    obtain ⟨ha,has⟩ := List.forall_mem_cons.mp has
    obtain ⟨hnot,hd⟩ := List.nodup_cons.mp hd
    obtain ⟨hok,hfrees⟩ := release_head_frees hR ha
    have hrest : ∀ b ∈ as, (R.without [a]).ring b = some [] := fun b hb => by
      refine Rings.ring_without (has b hb) fun y hy hya => hnot ?_
      rw [← List.mem_singleton.mp hya, List.mem_singleton.mp hy]
      exact hb
    obtain ⟨h',hok',hfrees'⟩ := ih hfrees.realizes hrest hd
    exact ⟨h',by rw [freeAll, hok, ok_bind, hok'],hfrees.trans hfrees'⟩

lemma length_le_flatMap {ι : Type} {node : ι → ℕ} {nodes : ι → List ℕ} (hmem : ∀ x, node x ∈ nodes x) (xs : List ι) :
    xs.length ≤ (xs.flatMap nodes).length := by
  induction xs with
  | nil => exact Nat.zero_le _
  | cons x xs ih =>
    have hpos : 0 < (nodes x).length := List.length_pos_of_mem (hmem x)
    rw [List.flatMap_cons, List.length_append, List.length_cons]
    omega

lemma length_le_of_mem {ι : Type} {nodes : ι → List ℕ} {xs : List ι} {x : ι} (hx : x ∈ xs) :
    (nodes x).length ≤ (xs.flatMap nodes).length := by
  obtain ⟨p,q,rfl⟩ := List.append_of_mem hx
  simp only [List.flatMap_append, List.flatMap_cons, List.length_append]
  omega

lemma ItemBlock.length_args_le (x : ItemBlock) : x.args.length ≤ x.nodes.length := by
  rw [x.nodes_eq, List.length_cons, List.length_cons]
  exact (length_le_flatMap ArgBlock.node_mem x.args).trans (by omega)

lemma ConditionBlock.length_args_le (x : ConditionBlock) : x.args.length ≤ x.nodes.length := by
  rw [x.nodes_eq, List.length_cons, List.length_cons, List.length_cons]
  exact (length_le_flatMap ArgBlock.node_mem x.args).trans (by omega)

/-- What is freed elsewhere is nothing to some items, -/
lemma Owns.frees_items {xs : List ItemBlock} (ho : Owns h R (xs.flatMap ItemBlock.bodies) (xs.flatMap ItemBlock.rings))
    (hf : Frees h R D h') (hd : (xs.flatMap ItemBlock.nodes).Disjoint D) :
    Owns h' (R.without D) (xs.flatMap ItemBlock.bodies) (xs.flatMap ItemBlock.rings) := by
  refine ho.frees hf (fun y hy => ?_) fun p hp y hy => ?_
  · rw [List.map_flatMap] at hy
    exact fun hD => hd hy hD
  · obtain ⟨x,hx,hp⟩ := List.mem_flatMap.mp hp
    exact fun hD => hd (List.mem_flatMap.mpr ⟨x,hx,ItemBlock.rings_subset hp hy⟩) hD

/-- What a rule has itself. -/
def RuleBlock.own (x : RuleBlock) : List ℕ := [x.node,conditionsOf x.node,actionsOf x.node,undosOf x.node,x.id]

/-- What its conditions, actions and undos have. -/
def RuleBlock.items (x : RuleBlock) : List ℕ :=
  x.conditions.flatMap ConditionBlock.nodes ++ x.actions.flatMap ItemBlock.nodes ++ x.undos.flatMap ItemBlock.nodes

lemma RuleBlock.nodes_split (x : RuleBlock) : x.nodes = x.own ++ x.items := by
  rw [x.nodes_eq, own, items, List.append_assoc, List.append_assoc, List.append_assoc]

lemma map_node_subset (xs : List ItemBlock) : xs.map ItemBlock.node ⊆ xs.flatMap ItemBlock.nodes := fun y hy => by
  obtain ⟨c,hc,rfl⟩ := List.mem_map.mp hy
  exact List.mem_flatMap.mpr ⟨c,hc,c.node_mem⟩

lemma map_condition_subset (xs : List ConditionBlock) :
    xs.map (fun c => c.node) ⊆ xs.flatMap ConditionBlock.nodes := fun y hy => by
  obtain ⟨c,hc,rfl⟩ := List.mem_map.mp hy
  exact List.mem_flatMap.mpr ⟨c,hc,c.node_mem⟩

/-- The lists of a rule consist of its own nodes. -/
lemma RuleBlock.rings_subset {x : RuleBlock} {p : ℕ × List ℕ} (hp : p ∈ x.rings) : p.1 :: p.2 ⊆ x.nodes := by
  intro y hy
  rw [x.nodes_eq]
  simp only [rings, List.mem_append, List.mem_cons, List.not_mem_nil, or_false] at hp
  simp only [List.mem_append]
  rcases hp with (((rfl | rfl | rfl) | hp) | hp) | hp
  · rcases List.mem_cons.mp hy with rfl | hy
    · exact .inl (.inl (.inl (by simp)))
    · exact .inl (.inl (.inr (map_condition_subset _ hy)))
  · rcases List.mem_cons.mp hy with rfl | hy
    · exact .inl (.inl (.inl (by simp)))
    · exact .inl (.inr (map_node_subset _ hy))
  · rcases List.mem_cons.mp hy with rfl | hy
    · exact .inl (.inl (.inl (by simp)))
    · exact .inr (map_node_subset _ hy)
  · obtain ⟨c,hc,hp⟩ := List.mem_flatMap.mp hp
    exact .inl (.inl (.inr (List.mem_flatMap.mpr ⟨c,hc,ConditionBlock.rings_subset hp hy⟩)))
  · obtain ⟨c,hc,hp⟩ := List.mem_flatMap.mp hp
    exact .inl (.inr (List.mem_flatMap.mpr ⟨c,hc,ItemBlock.rings_subset hp hy⟩))
  · obtain ⟨c,hc,hp⟩ := List.mem_flatMap.mp hp
    exact .inr (List.mem_flatMap.mpr ⟨c,hc,ItemBlock.rings_subset hp hy⟩)

/-- The actions or the undos of a rule are freed after other items. -/
lemma deleteActions_after {xs : List ItemBlock} (hf : Frees h R D h₁)
    (ha : R.ring a = some (xs.map ItemBlock.node))
    (ho : Owns h R (xs.flatMap ItemBlock.bodies) (xs.flatMap ItemBlock.rings)) (hd : (xs.flatMap ItemBlock.nodes).Nodup)
    (hapart : (xs.flatMap ItemBlock.nodes).Disjoint D) (haD : a ∉ D) (hout : a ∉ xs.flatMap ItemBlock.nodes)
    (hk : (xs.flatMap ItemBlock.nodes).length < k) :
    ∃ h₂, listForEachSafe id (deleteAction k) a k h₁ = .ok h₂ ∧ Frees h R (D ++ xs.flatMap ItemBlock.nodes) h₂ := by
  have ha₁ : (R.without D).ring a = some (xs.map ItemBlock.node) :=
    Rings.ring_without ha (List.forall_mem_cons.mpr ⟨haD,fun y hy => hapart (map_node_subset xs hy)⟩)
  obtain ⟨h₂,hok,hf₂⟩ := deleteActions_frees hf.realizes ha₁ (ho.frees_items hf hapart) hd hout
    ((length_le_flatMap ItemBlock.node_mem xs).trans_lt hk)
    fun c hc => (c.length_args_le.trans (length_le_of_mem hc)).trans_lt hk
  exact ⟨h₂,hok,hf.trans hf₂⟩

lemma freeItems_frees {x : RuleBlock} (hR : Realizes h R) (ho : Owns h R x.bodies x.rings)
    (hlisten : ∀ c ∈ x.conditions, c.Listens h R k ∧ c.listeners ∉ x.nodes) (hd : x.nodes.Nodup) (hk : x.nodes.length < k) :
    ∃ h₁ h₂ h₃, listForEachSafe id (deleteCondition k) (conditionsOf x.node) k h = .ok h₁ ∧
      listForEachSafe id (deleteAction k) (actionsOf x.node) k h₁ = .ok h₂ ∧
      listForEachSafe id (deleteAction k) (undosOf x.node) k h₂ = .ok h₃ ∧ Frees h R x.items h₃ := by
  rw [x.nodes_split] at hd hlisten hk
  obtain ⟨-,hd,hown⟩ := List.nodup_append'.mp hd
  obtain ⟨hdCA,hdU,hU⟩ := List.nodup_append'.mp hd
  obtain ⟨hdC,hdA,hA⟩ := List.nodup_append'.mp hdCA
  -- the heads of its lists are in none of them
  have hheads : ∀ y ∈ x.own, y ∉ x.conditions.flatMap ConditionBlock.nodes ∧ y ∉ x.actions.flatMap ItemBlock.nodes ∧
      y ∉ x.undos.flatMap ItemBlock.nodes := fun y hy => by
    have hitems : y ∉ x.items := fun h => hown hy h
    simp only [RuleBlock.items, List.mem_append, not_or, and_assoc] at hitems
    exact hitems
  simp only [RuleBlock.items, List.length_append] at hk
  have hmemC : conditionsOf x.node ∈ x.own := by simp [RuleBlock.own]
  have hmemA : actionsOf x.node ∈ x.own := by simp [RuleBlock.own]
  have hmemU : undosOf x.node ∈ x.own := by simp [RuleBlock.own]
  have hkA : (x.actions.flatMap ItemBlock.nodes).length < k := by omega
  have hkU : (x.undos.flatMap ItemBlock.nodes).length < k := by omega
  obtain ⟨h₁,hok₁,hf₁⟩ := deleteConditions_frees hR
    (ho.rings (conditionsOf x.node,x.conditions.map fun c => c.node) (by simp [RuleBlock.rings]))
    (ho.mono (fun p hp => by simp only [RuleBlock.bodies, List.mem_append]; tauto)
      fun p hp => by simp only [RuleBlock.rings, List.mem_append]; tauto)
    (fun c hc => ⟨(hlisten c hc).1,fun h => (hlisten c hc).2
      (List.mem_append_right _ (List.mem_append_left _ (List.mem_append_left _ h)))⟩) hdC (hheads _ hmemC).1
    ((length_le_flatMap ConditionBlock.node_mem x.conditions).trans_lt (by omega))
    fun c hc => (c.length_args_le.trans (length_le_of_mem hc)).trans_lt (by omega)
  obtain ⟨h₂,hok₂,hf₂⟩ := deleteActions_after hf₁
    (ho.rings (actionsOf x.node,x.actions.map ItemBlock.node) (by simp [RuleBlock.rings]))
    (ho.mono (fun p hp => by simp only [RuleBlock.bodies, List.mem_append]; tauto)
      fun p hp => by simp only [RuleBlock.rings, List.mem_append]; tauto)
    hdA (fun y hy hyC => hA hyC hy) (hheads _ hmemA).1 (hheads _ hmemA).2.1 hkA
  obtain ⟨h₃,hok₃,hf₃⟩ := deleteActions_after hf₂
    (ho.rings (undosOf x.node,x.undos.map ItemBlock.node) (by simp [RuleBlock.rings]))
    (ho.mono (fun p hp => by simp only [RuleBlock.bodies, List.mem_append]; tauto)
      fun p hp => by simp only [RuleBlock.rings, List.mem_append]; tauto)
    hdU (fun y hy hyCA => hU hyCA hy)
    (fun h => (List.mem_append.mp h).elim (hheads _ hmemU).1 (hheads _ hmemU).2.1) (hheads _ hmemU).2.2 hkU
  exact ⟨h₁,h₂,h₃,hok₁,hok₂,hok₃,hf₃⟩

/-- A rule that is in no list is freed with all that it owns. -/
lemma Memory.freeRule_frees {x : RuleBlock} (hR : Realizes h R) (ho : Owns h R x.bodies x.rings) (hloose : x.node ∈ R.loose)
    (hlisten : ∀ c ∈ x.conditions, c.Listens h R k ∧ c.listeners ∉ x.nodes) (hd : x.nodes.Nodup) (hk : x.nodes.length < k) :
    ∃ h', Memory.freeRule k x.node h = .ok h' ∧ Frees h R x.nodes h' := by
  obtain ⟨h₁,h₂,h₃,hok₁,hok₂,hok₃,hf⟩ := freeItems_frees hR ho hlisten hd hk
  rw [x.nodes_split] at hd
  obtain ⟨hdown,-,hown⟩ := List.nodup_append'.mp hd
  have hmem : ∀ y ∈ x.own, y ∉ x.items := fun y hy h => hown hy h
  simp only [RuleBlock.own, List.nodup_cons, List.mem_cons, List.not_mem_nil, or_false, not_or] at hdown
  obtain ⟨⟨hn₁,hn₂,hn₃,hn₄⟩,⟨hc₁,hc₂,hc₃⟩,⟨ha₁,ha₂⟩,hu,-⟩ := hdown
  have hnode : x.node ∉ x.items := hmem _ (by simp [RuleBlock.own])
  have hid : x.id ∉ x.items := hmem _ (by simp [RuleBlock.own])
  have hdata : h₃.dataOf x.node = some (.rule x.id) :=
    (hf.data _ hnode).trans (ho.data (x.node,.rule x.id) (by simp [RuleBlock.bodies]))
  obtain ⟨hok₄,hf₄⟩ := release_loose_frees hf.realizes
    (Rings.mem_loose_without (ho.loose x.id x.name (by simp [RuleBlock.bodies])) hid)
  have hf' := hf.trans hf₄
  obtain ⟨hok₅,hf₅⟩ := release_loose_frees hf'.realizes (x := x.node) (Rings.mem_loose_without hloose
    fun h => (List.mem_append.mp h).elim hnode fun h => hn₄ (List.mem_singleton.mp h))
  have hf'' := hf'.trans hf₅
  -- the lists of the rule are empty by now
  have hempty : ∀ a l, a ∈ x.own → a ≠ x.id → a ≠ x.node → R.ring a = some l → l ⊆ x.items →
      (R.without (x.items ++ [x.id] ++ [x.node])).ring a = some [] := fun a l ha hid hnode hl hsub => by
    refine Rings.ring_without_all hl (fun h => ?_) fun y hy => ?_
    · simp only [List.mem_append, List.mem_singleton] at h
      exact h.elim (fun h => h.elim (hmem a ha) hid) hnode
    · exact List.mem_append_left _ (List.mem_append_left _ (hsub hy))
  have hheads : ∀ a ∈ [conditionsOf x.node,actionsOf x.node,undosOf x.node],
      (R.without (x.items ++ [x.id] ++ [x.node])).ring a = some [] := by
    refine List.forall_mem_cons.mpr ⟨?_,List.forall_mem_cons.mpr ⟨?_,List.forall_mem_singleton.mpr ?_⟩⟩
    · refine hempty _ _ (by simp [RuleBlock.own]) hc₃ (Ne.symm hn₁)
        (ho.rings (conditionsOf x.node,x.conditions.map fun c => c.node) (by simp [RuleBlock.rings])) fun y hy => ?_
      exact List.mem_append_left _ (List.mem_append_left _ (map_condition_subset _ hy))
    · refine hempty _ _ (by simp [RuleBlock.own]) ha₂ (Ne.symm hn₂)
        (ho.rings (actionsOf x.node,x.actions.map ItemBlock.node) (by simp [RuleBlock.rings])) fun y hy => ?_
      exact List.mem_append_left _ (List.mem_append_right _ (map_node_subset _ hy))
    · refine hempty _ _ (by simp [RuleBlock.own]) hu (Ne.symm hn₃)
        (ho.rings (undosOf x.node,x.undos.map ItemBlock.node) (by simp [RuleBlock.rings])) fun y hy => ?_
      exact List.mem_append_right _ (map_node_subset _ hy)
  obtain ⟨h',hok₆,hf₆⟩ := freeHeads_frees hf''.realizes hheads (by simp [hc₁, hc₂, ha₁])
  obtain ⟨node,hread,hrule⟩ := read_of_dataOf hdata
  refine ⟨h',?_,(hf''.trans hf₆).congr fun y => ?_⟩
  · simp only [Memory.freeRule, hok₁, hok₂, hok₃, hread, hrule, hok₄, ok_bind]
    rw [freeAll, hok₅, ok_bind, hok₆]
  · rw [x.nodes_split, RuleBlock.own]
    simp only [List.mem_append, List.mem_cons, List.not_mem_nil, or_false]
    simp only [or_assoc, or_comm, or_left_comm]

/-- The variables that its arguments name. -/
def ItemBlock.varNames (x : ItemBlock) : List String := x.args.flatMap fun arg => arg.varName.toList

/-- The variables that a rule names, each as often as it is named. -/
def RuleBlock.varNames (x : RuleBlock) : List String :=
  x.conditions.flatMap (fun c => c.varNames) ++ x.actions.flatMap ItemBlock.varNames ++ x.undos.flatMap ItemBlock.varNames

variable {parseArg : String → Option Arg} {vars vars' : VarStore}

lemma foldlM_map_flatMap {ι σ : Type} {f : σ → ℕ → Outcome σ} {g : σ → String → Outcome σ} {node : ι → ℕ}
    {names : ι → List String} {xs : List ι} (hf : ∀ x ∈ xs, ∀ s, f s (node x) = (names x).foldlM g s) (s : σ) :
    (xs.map node).foldlM f s = (xs.flatMap names).foldlM g s := by
  induction xs generalizing s with
  | nil => rfl
  | cons x xs ih =>
    obtain ⟨hx,hxs⟩ := List.forall_mem_cons.mp hf
    rw [List.map_cons, List.foldlM_cons, List.flatMap_cons, List.foldlM_append, hx]
    exact congrArg _ (funext (ih hxs))

lemma decArgRef_eq {x : ArgBlock} (ho : Owns h R x.bodies []) (vars : VarStore) :
    decArgRef parseArg h vars x.node = x.varName.toList.foldlM (changeRef parseArg (-1)) vars := by
  obtain ⟨node,hread,hdata⟩ := read_of_dataOf (ho.data _ List.mem_cons_self)
  rw [decArgRef, hread, ok_bind, hdata, ArgBlock.varName]
  cases harg : x.arg with
  | value => rfl
  | str t => rfl
  | var t =>
    obtain ⟨text,hreadText,htext⟩ := read_of_dataOf (ho.data (t,.text x.chars) (by simp [ArgBlock.bodies, harg, ArgData.text]))
    simp only [hreadText, ok_bind, htext, Option.toList_some, List.foldlM_cons, List.foldlM_nil]
    exact (bind_pure _).symm

lemma decItemRefs_eq {x : ItemBlock} (hR : Realizes h R) (ho : Owns h R (x.args.flatMap ArgBlock.bodies) x.rings)
    (hk : x.args.length < k) (vars : VarStore) :
    decItemRefs k parseArg h vars x.node = x.varNames.foldlM (changeRef parseArg (-1)) vars := by
  have hargs : R.ring (argsOf x.node) = some (x.args.map ArgBlock.node) := ho.rings _ List.mem_cons_self
  rw [decItemRefs, listForEach_eq hR hargs (by simpa using hk), ok_bind]
  exact foldlM_map_flatMap (fun arg harg vars => decArgRef_eq
    (ho.mono (fun p hp => List.mem_flatMap.mpr ⟨arg,harg,hp⟩) (List.nil_subset _)) vars) vars

lemma Memory.decVariableRefs_eq {x : RuleBlock} (hR : Realizes h R) (ho : Owns h R x.bodies x.rings)
    (hk : x.nodes.length < k) (vars : VarStore) :
    Memory.decVariableRefs k parseArg h x.node vars = x.varNames.foldlM (changeRef parseArg (-1)) vars := by
  rw [x.nodes_split, RuleBlock.items] at hk
  simp only [List.length_append] at hk
  have hlist : ∀ a p, (a,p) ∈ x.rings → p.length < k → listForEach h a k = .ok p := fun a p hp hlen =>
    listForEach_eq hR (ho.rings (a,p) hp) hlen
  have hitems : ∀ xs : List ItemBlock, xs.flatMap ItemBlock.bodies ⊆ x.bodies → xs.flatMap ItemBlock.rings ⊆ x.rings →
      (xs.flatMap ItemBlock.nodes).length < k → ∀ vars, (xs.map ItemBlock.node).foldlM (decItemRefs k parseArg h) vars =
        (xs.flatMap ItemBlock.varNames).foldlM (changeRef parseArg (-1)) vars := fun xs hbodies hrings hlen =>
    foldlM_map_flatMap fun item hitem => by
      refine decItemRefs_eq hR (ho.mono (fun p hp => hbodies (List.mem_flatMap.mpr ⟨item,hitem,?_⟩))
        fun p hp => hrings (List.mem_flatMap.mpr ⟨item,hitem,hp⟩))
        ((item.length_args_le.trans (length_le_of_mem hitem)).trans_lt hlen)
      exact List.mem_cons_of_mem _ (List.mem_cons_of_mem _ hp)
  have hconditions : ∀ vars, (x.conditions.map fun c => c.node).foldlM (decItemRefs k parseArg h) vars =
      (x.conditions.flatMap fun c => c.varNames).foldlM (changeRef parseArg (-1)) vars :=
    foldlM_map_flatMap fun c hc => by
      refine decItemRefs_eq hR (ho.mono (fun p hp => ?_) fun p hp => ?_)
        ((c.length_args_le.trans (length_le_of_mem hc)).trans_lt (by omega))
      · have hmem : p ∈ x.conditions.flatMap ConditionBlock.bodies :=
          List.mem_flatMap.mpr ⟨c,hc,List.mem_cons_of_mem _ (List.mem_cons_of_mem _ (List.mem_cons_of_mem _ hp))⟩
        simp only [RuleBlock.bodies, List.mem_append]
        tauto
      · have hmem : p ∈ x.conditions.flatMap fun c => c.rings := List.mem_flatMap.mpr ⟨c,hc,hp⟩
        simp only [RuleBlock.rings, List.mem_append]
        tauto
  have hC := length_le_flatMap ConditionBlock.node_mem x.conditions
  have hA := length_le_flatMap ItemBlock.node_mem x.actions
  have hU := length_le_flatMap ItemBlock.node_mem x.undos
  rw [Memory.decVariableRefs, hlist _ (x.conditions.map fun c => c.node) (by simp [RuleBlock.rings])
    (by rw [List.length_map]; omega), ok_bind, hconditions, RuleBlock.varNames, List.foldlM_append, List.foldlM_append]
  simp only [bind_assoc]
  refine congrArg _ (funext fun vars => ?_)
  rw [hlist _ (x.actions.map ItemBlock.node) (by simp [RuleBlock.rings]) (by rw [List.length_map]; omega), ok_bind,
    hitems x.actions (fun p hp => by simp only [RuleBlock.bodies, List.mem_append]; tauto)
      (fun p hp => by simp only [RuleBlock.rings, List.mem_append]; tauto) (by omega)]
  refine congrArg _ (funext fun vars => ?_)
  rw [hlist _ (x.undos.map ItemBlock.node) (by simp [RuleBlock.rings]) (by rw [List.length_map]; omega), ok_bind,
    hitems x.undos (fun p hp => by simp only [RuleBlock.bodies, List.mem_append]; tauto)
      (fun p hp => by simp only [RuleBlock.rings, List.mem_append]; tauto) (by omega)]

/-- A rule of the list is taken out of it, off the counts of its variables, and freed. -/
lemma Memory.deleteRule_frees {rules : ℕ} {x : RuleBlock} (hR : Realizes h R) (hring : R.ring rules = some (l ++ x.node :: m))
    (ho : Owns h R x.bodies x.rings)
    (hlisten : ∀ c ∈ x.conditions, c.Listens h R k ∧ c.listeners ≠ rules ∧ c.listeners ∉ x.nodes) (hd : x.nodes.Nodup)
    (hout : ∀ y ∈ rules :: (l ++ m), y ∉ x.nodes) (hk : x.nodes.length < k) (hkr : (l ++ m).length < k)
    (hvars : x.varNames.foldlM (changeRef parseArg (-1)) vars = .ok vars') :
    ∃ h', Memory.deleteRule k parseArg rules x.node (h,vars) = .ok (h',vars') ∧ Frees h R x.nodes h' := by
  have hnode : x.node ∈ x.nodes := by simp [x.nodes_eq]
  obtain ⟨hnext,hprev⟩ := hR.pointers hring
  obtain ⟨d,-,hread⟩ := read_eq h hnext hprev
  obtain ⟨h₁,hok₁,hout₁⟩ := listDel_realizes hR hring
  have hother : ∀ y ∈ x.nodes, y ≠ rules := fun y hy heq => hout _ List.mem_cons_self (heq ▸ hy)
  have hown : Owns h₁ (R.set rules (l ++ m)) x.bodies x.rings := by
    refine ⟨fun p hp => hout₁.data_eq ▸ ho.data p hp,fun t chars ht => ⟨.inl (ho.loose t chars ht),fun hmem => ?_⟩,
      fun p hp => ?_⟩
    · exact hout t hmem (List.mem_map.mpr ⟨_,ht,rfl⟩)
    · have hp' := ho.rings p hp
      rwa [Rings.ring_set_of_ne (hother _ (RuleBlock.rings_subset hp List.mem_cons_self))]
  have hlisten₁ : ∀ c ∈ x.conditions, c.Listens h₁ (R.set rules (l ++ m)) k ∧ c.listeners ∉ x.nodes := fun c hc => by
    obtain ⟨⟨p,q,hlistens,hp,hpk⟩,hne,hnot⟩ := hlisten c hc
    exact ⟨⟨p,q,by rwa [Rings.ring_set_of_ne hne],fun y hy => hout₁.data_eq ▸ hp y hy,hpk⟩,hnot⟩
  have hdec := (Memory.decVariableRefs_eq hout₁.realizes hown hk vars).trans hvars
  obtain ⟨h₂,hok₂,hf⟩ := Memory.freeRule_frees hout₁.realizes hown (hR.mem_loose_set hring) hlisten₁ hd hk
  have hleft : ((R.set rules (l ++ m)).without x.nodes).ring rules = some (l ++ m) :=
    Rings.ring_without Rings.ring_set hout
  have hfrees : Frees h R x.nodes h₂ :=
    ⟨hR.without_set hring hnode ▸ hf.realizes,fun y hy => (hf.data y hy).trans (congrFun hout₁.data_eq y),
      fun y => by rw [hf.domain, hout₁.domain]⟩
  have hlength := listForEach_eq hf.realizes hleft hkr
  have hstep : Memory.deleteRule k parseArg rules x.node (h,vars) =
      (if l ++ m = [] then initListHead h₂ rules else .ok h₂) >>= fun h' => .ok (h',vars') := by
    rw [Memory.deleteRule, hread, ok_bind]
    simp only [Option.isSome_some, Bool.and_self, if_true, hok₁, hdec, hok₂, hlength, ok_bind]
    split_ifs <;> rfl
  rw [hstep]
  split_ifs with hnil
  · obtain ⟨h₃,hok₃,hout₃⟩ := initListHead_empty hf.realizes (hleft.trans (by rw [hnil]))
    exact ⟨h₃,by rw [hok₃, ok_bind],hR.without_set hring hnode ▸ hout₃.realizes,
      fun y hy => (congrFun hout₃.data_eq y).trans (hfrees.data y hy),fun y => by rw [hout₃.domain, hfrees.domain]⟩
  · exact ⟨h₂,rfl,hfrees⟩

end Blocks

section Deleting
variable {h h' : Memory} {R : Rings} {D : List ℕ} {rules k : ℕ} {xs ys l m : List RuleBlock} {x : RuleBlock}
  {parseArg : String → Option Arg} {vars vars' : VarStore}

/-- The rules stand in memory as they were built: each owns what it consists of, and its conditions are among the
listeners of their events. -/
structure Laid (rules k : ℕ) (xs : List RuleBlock) (h : Memory) (R : Rings) : Prop where
  realizes : Realizes h R
  loaded : R.ring rules = some (xs.map RuleBlock.node)
  owns : ∀ x ∈ xs, Owns h R x.bodies x.rings
  listens : ∀ x ∈ xs, ∀ c ∈ x.conditions, c.Listens h R k
  apart : ∀ x ∈ xs, ∀ c ∈ x.conditions, c.listeners ≠ rules ∧ c.listeners ∉ xs.flatMap RuleBlock.nodes
  nodup : (xs.flatMap RuleBlock.nodes).Nodup
  outside : rules ∉ xs.flatMap RuleBlock.nodes
  short : (xs.flatMap RuleBlock.nodes).length < k

/-- What the requests to delete do. -/
inductive Deletion
  | rule (rule : ℕ)
  | all
  deriving DecidableEq, Repr

def Deletion.exec (k : ℕ) (parseArg : String → Option Arg) (rules : ℕ) (s : Memory × VarStore) :
    Deletion → Outcome (Memory × VarStore)
  | rule node => Memory.deleteRule k parseArg rules node s
  | all => Memory.deleteRules k parseArg rules s

/-- Deletions, each of a rule that is in the list then, and the rules that are left. -/
inductive Deletes : List RuleBlock → List Deletion → List RuleBlock → Prop
  | nil {xs : List RuleBlock} : Deletes xs [] xs
  | rule {l m ys : List RuleBlock} {x : RuleBlock} {ds : List Deletion} (hds : Deletes (l ++ m) ds ys) :
      Deletes (l ++ x :: m) (.rule x.node :: ds) ys
  | all {xs ys : List RuleBlock} {ds : List Deletion} (hds : Deletes [] ds ys) : Deletes xs (.all :: ds) ys

lemma RuleBlock.node_mem (x : RuleBlock) : x.node ∈ x.nodes := by simp [x.nodes_eq]

/-- Some rules have been freed, and the others stand as before. -/
lemma Laid.frees (hl : Laid rules k xs h R) (hf : Frees h R D h') (hys : ys.Sublist xs)
    (hleft : (R.without D).ring rules = some (ys.map RuleBlock.node)) (hD : ∀ y ∈ D, y ∈ xs.flatMap RuleBlock.nodes)
    (hkeep : ∀ y ∈ ys.flatMap RuleBlock.nodes, y ∉ D) : Laid rules k ys h' (R.without D) := by
  have hsub : (ys.flatMap RuleBlock.nodes).Sublist (xs.flatMap RuleBlock.nodes) := hys.flatMap _
  have hnodes : ∀ x ∈ ys, ∀ y ∈ x.nodes, y ∉ D := fun x hx y hy => hkeep y (List.mem_flatMap.mpr ⟨x,hx,hy⟩)
  refine ⟨hf.realizes,hleft,fun x hx => ?_,fun x hx c hc => ?_,fun x hx c hc => ?_,hl.nodup.sublist hsub,
    fun hmem => hl.outside (hsub.subset hmem),hsub.length_le.trans_lt hl.short⟩
  · exact (hl.owns x (hys.subset hx)).frees hf (hnodes x hx) fun p hp y hy => hnodes x hx y (RuleBlock.rings_subset hp hy)
  · refine (hl.listens x (hys.subset hx) c hc).frees hf (fun hmem => ?_) (hnodes x hx _ ?_)
    · exact (hl.apart x (hys.subset hx) c hc).2 (hD _ hmem)
    · rw [x.nodes_eq]
      have hlistener : c.listener ∈ x.conditions.flatMap ConditionBlock.nodes :=
        List.mem_flatMap.mpr ⟨c,hc,by simp [c.nodes_eq]⟩
      simp only [List.mem_append]
      tauto
  · obtain ⟨hne,hnot⟩ := hl.apart x (hys.subset hx) c hc
    exact ⟨hne,fun hmem => hnot (hsub.subset hmem)⟩

lemma Laid.delete (hl : Laid rules k (l ++ x :: m) h R)
    (hvars : x.varNames.foldlM (changeRef parseArg (-1)) vars = .ok vars') :
    ∃ h', Memory.deleteRule k parseArg rules x.node (h,vars) = .ok (h',vars') ∧
      Frees h R x.nodes h' ∧ Laid rules k (l ++ m) h' (R.without x.nodes) := by
  have hx : x ∈ l ++ x :: m := by simp
  obtain ⟨hd,hbefore,hbehind⟩ := disjoint_of_split hl.nodup
  have hrest : ∀ y ∈ (l ++ m).flatMap RuleBlock.nodes, y ∉ x.nodes := fun y hy hyx => by
    rw [List.flatMap_append, List.mem_append] at hy
    exact hy.elim (hbefore hyx) (hbehind hyx)
  have hring : R.ring rules = some (l.map RuleBlock.node ++ x.node :: m.map RuleBlock.node) := by
    rw [hl.loaded, List.map_append, List.map_cons]
  have hmem : ∀ y ∈ x.nodes, y ∈ (l ++ x :: m).flatMap RuleBlock.nodes := fun y hy => List.mem_flatMap.mpr ⟨x,hx,hy⟩
  have hout : ∀ y ∈ rules :: (l.map RuleBlock.node ++ m.map RuleBlock.node), y ∉ x.nodes := by
    rw [← List.map_append]
    refine List.forall_mem_cons.mpr ⟨fun h => hl.outside (hmem _ h),fun y hy => ?_⟩
    obtain ⟨z,hz,rfl⟩ := List.mem_map.mp hy
    exact hrest _ (List.mem_flatMap.mpr ⟨z,hz,z.node_mem⟩)
  have hshort : (l.map RuleBlock.node ++ m.map RuleBlock.node).length < k := by
    have hle := length_le_flatMap RuleBlock.node_mem (l ++ x :: m)
    have hk := hl.short
    simp only [List.length_append, List.length_map, List.length_cons] at hle ⊢
    omega
  obtain ⟨h',hok,hf⟩ := Memory.deleteRule_frees hl.realizes hring (hl.owns x hx)
    (fun c hc => ⟨hl.listens x hx c hc,(hl.apart x hx c hc).1,fun h => (hl.apart x hx c hc).2 (hmem _ h)⟩) hd hout
    ((length_le_of_mem hx).trans_lt hl.short) hshort hvars
  refine ⟨h',hok,hf,hl.frees hf ((List.sublist_cons_self x m).append_left l) ?_ hmem hrest⟩
  have hset := Rings.ring_without (R := R.set rules (l.map RuleBlock.node ++ m.map RuleBlock.node)) Rings.ring_set hout
  rw [hl.realizes.without_set hring x.node_mem] at hset
  rw [hset, List.map_append]

/-- All variables that the rules name are found when they are looked up. -/
def NamesFound (parseArg : String → Option Arg) (vars : VarStore) (xs : List RuleBlock) : Prop :=
  ∀ name ∈ xs.flatMap RuleBlock.varNames, (lookupVar parseArg vars name).1.isSome = true

lemma Laid.deleteAll (hl : Laid rules k xs h R) (hfound : NamesFound parseArg vars xs) :
    ∃ h' vars', Memory.deleteRules k parseArg rules (h,vars) = .ok (h',vars') ∧
      (xs.flatMap RuleBlock.varNames).foldlM (changeRef parseArg (-1)) vars = .ok vars' ∧
      Frees h R (xs.flatMap RuleBlock.nodes) h' ∧ Laid rules k [] h' (R.without (xs.flatMap RuleBlock.nodes)) := by
  have hk := (length_le_flatMap RuleBlock.node_mem xs).trans_lt hl.short
  obtain ⟨⟨h',vars'⟩,hok,hvars,hf⟩ := @forEach_frees_of _ _ _ RuleBlock (Memory × VarStore) Prod.fst (h,vars)
    (fun done s => (done.flatMap RuleBlock.varNames).foldlM (changeRef parseArg (-1)) vars = .ok s.2) RuleBlock.node
    RuleBlock.nodes (Memory.deleteRule k parseArg rules) _ hl.realizes hl.loaded (fun x _ => x.node_mem) hl.nodup hl.outside
    hk rfl fun done x todo hxs s₁ hvars₁ hf hring => by
      subst hxs
      have hsplit := hl.nodup
      rw [List.flatMap_append] at hsplit
      have hnames : ∀ y ∈ done ++ x :: todo, ∀ name ∈ y.varNames, (lookupVar parseArg vars name).1.isSome = true :=
        fun y hy name hname => hfound name (List.mem_flatMap.mpr ⟨y,hy,hname⟩)
      have hdone : ∀ name ∈ done.flatMap RuleBlock.varNames, (lookupVar parseArg vars name).1.isSome = true := by
        intro name hname
        obtain ⟨y,hy,hname⟩ := List.mem_flatMap.mp hname
        exact hnames y (List.mem_append_left _ hy) name hname
      obtain ⟨vars₁,hok₁,-,hkept⟩ := changeRefs_found (-1) hdone
      obtain rfl := Except.ok.inj (hok₁.symm.trans hvars₁)
      have hx : ∀ name ∈ x.varNames, (lookupVar parseArg s₁.2 name).1.isSome = true :=
        fun name hname => (hkept name).trans (hnames x (by simp) name hname)
      obtain ⟨vars₂,hvars₂,-⟩ := changeRefs_found (-1) hx
      obtain ⟨h₂,hok,hf₂,-⟩ := Laid.delete (l := []) (hl.frees hf (List.sublist_append_right done (x :: todo)) hring
        (fun y hy => by rw [List.flatMap_append]; exact List.mem_append_left _ hy)
        fun y hy hdone => (List.nodup_append'.mp hsplit).2.2 hdone hy) hvars₂
      refine ⟨(h₂,vars₂),hok,?_,hf₂⟩
      rw [List.flatMap_append, List.flatMap_singleton, List.foldlM_append, hvars₁, ok_bind, hvars₂]
  refine ⟨h',vars',hok,hvars,hf,hl.frees hf (List.nil_sublist xs) ?_ (fun y hy => hy) (by simp)⟩
  refine Rings.ring_without_all hl.loaded hl.outside fun y hy => ?_
  obtain ⟨x,hx,rfl⟩ := List.mem_map.mp hy
  exact List.mem_flatMap.mpr ⟨x,hx,x.node_mem⟩

/-- The nodes of the rules that are gone. -/
def gone (xs ys : List RuleBlock) : List ℕ := (xs.flatMap RuleBlock.nodes).filter (· ∉ ys.flatMap RuleBlock.nodes)

lemma Deletes.subset {ds : List Deletion} (hds : Deletes xs ds ys) : ys.Sublist xs := by
  induction hds with
  | nil => exact List.Sublist.refl _
  | @rule l m ys x ds _ ih => exact ih.trans ((List.sublist_cons_self x m).append_left l)
  | @all xs ys ds _ ih => exact ih.trans (List.nil_sublist xs)

/-- With a rule go its own nodes, and what goes after it. -/
lemma mem_gone_middle (hnodup : ((l ++ x :: m).flatMap RuleBlock.nodes).Nodup) (hys : ys.Sublist (l ++ m)) (y : ℕ) :
    y ∈ x.nodes ++ gone (l ++ m) ys ↔ y ∈ gone (l ++ x :: m) ys := by
  obtain ⟨-,hbefore,hbehind⟩ := disjoint_of_split hnodup
  have hkept : y ∈ ys.flatMap RuleBlock.nodes → y ∈ (l ++ m).flatMap RuleBlock.nodes :=
    fun hy => (hys.flatMap RuleBlock.nodes).subset hy
  have hnot : y ∈ x.nodes → y ∉ (l ++ m).flatMap RuleBlock.nodes := fun hyx hy => by
    rw [List.flatMap_append, List.mem_append] at hy
    exact hy.elim (hbefore hyx) (hbehind hyx)
  simp only [gone, List.mem_append, List.mem_filter, List.flatMap_append, List.flatMap_cons, decide_eq_true_eq]
    at hkept hnot ⊢
  tauto

lemma varNames_middle : ((l ++ x :: m).flatMap RuleBlock.varNames).Perm
    (x.varNames ++ (l ++ m).flatMap RuleBlock.varNames) := by
  have hswap : (l ++ x :: m).Perm (x :: (l ++ m)) := List.perm_middle
  exact hswap.flatMap_right RuleBlock.varNames

/-- The variables that the other rules name are still found when those of a rule have been counted back. -/
lemma NamesFound.without (hfound : NamesFound parseArg vars (l ++ x :: m)) :
    ∃ vars', x.varNames.foldlM (changeRef parseArg (-1)) vars = .ok vars' ∧ NamesFound parseArg vars' (l ++ m) := by
  have hall : ∀ name ∈ x.varNames ++ (l ++ m).flatMap RuleBlock.varNames, (lookupVar parseArg vars name).1.isSome = true :=
    fun name hname => hfound name (varNames_middle.mem_iff.mpr hname)
  obtain ⟨hown,hrest⟩ := List.forall_mem_append.mp hall
  obtain ⟨vars',hvars,-,hkept⟩ := changeRefs_found (-1) hown
  exact ⟨vars',hvars,fun name hname => (hkept name).trans (hrest name hname)⟩

/-- What deletions do, with the counts that are taken back. -/
lemma Laid.deletions {ds : List Deletion} (hl : Laid rules k xs h R) (hfound : NamesFound parseArg vars xs)
    (hds : Deletes xs ds ys) : ∃ h' vars' names, Machine.perform (Deletion.exec k parseArg rules) (h,vars) ds = .ok (h',vars') ∧
      (names ++ ys.flatMap RuleBlock.varNames).Perm (xs.flatMap RuleBlock.varNames) ∧
      names.foldlM (changeRef parseArg (-1)) vars = .ok vars' ∧ Laid rules k ys h' (R.without (gone xs ys)) ∧
      Frees h R (gone xs ys) h' := by
  induction hds generalizing h R vars with
  | @nil xs =>
    have hnone : gone xs xs = [] := List.filter_eq_nil_iff.mpr fun y hy => by simpa using hy
    rw [hnone]
    exact ⟨h,vars,[],rfl,.refl _,rfl,by rwa [Rings.without_nil],.refl hl.realizes⟩
  | @rule l m ys x ds hds ih =>
    obtain ⟨vars₁,hvars₁,hfound₁⟩ := hfound.without
    obtain ⟨h₁,hok₁,hf₁,hl₁⟩ := hl.delete hvars₁
    obtain ⟨h₂,vars₂,names,hok₂,hperm,hvars₂,hl₂,hf₂⟩ := ih hl₁ hfound₁
    have hmem := mem_gone_middle hl.nodup hds.subset
    refine ⟨h₂,vars₂,x.varNames ++ names,?_,?_,?_,?_,(hf₁.trans hf₂).congr hmem⟩
    · rw [perform_cons, Deletion.exec, hok₁]
      exact hok₂
    · rw [List.append_assoc]
      exact (hperm.append_left x.varNames).trans varNames_middle.symm
    · rw [List.foldlM_append, hvars₁, ok_bind, hvars₂]
    · rwa [Rings.without_without, Rings.without_congr hmem] at hl₂
  | @all xs ys ds hds ih =>
    obtain ⟨h₁,vars₁,hok₁,hvars₁,hf₁,hl₁⟩ := hl.deleteAll hfound
    have hnone : NamesFound parseArg vars₁ [] := fun name hname => by simp at hname
    obtain ⟨h₂,vars₂,names,hok₂,hperm,hvars₂,hl₂,hf₂⟩ := ih hl₁ hnone
    obtain rfl : ys = [] := List.sublist_nil.mp hds.subset
    obtain rfl : names = [] := by simpa using hperm
    obtain rfl := Except.ok.inj hvars₂
    have hmem : ∀ y, y ∈ xs.flatMap RuleBlock.nodes ++ gone [] [] ↔ y ∈ gone xs [] := by simp [gone]
    refine ⟨h₂,vars₁,xs.flatMap RuleBlock.varNames,?_,by simp,hvars₁,?_,(hf₁.trans hf₂).congr hmem⟩
    · rw [perform_cons, Deletion.exec, hok₁]
      exact hok₂
    · rwa [Rings.without_without, Rings.without_congr hmem] at hl₂

/-- Deletions from rules that stand in memory as they were built and whose variables can be found, in any order, end
without an error of memory: nothing is freed twice, and nothing is used that is freed. What is freed is what the deleted
rules own, all of it and nothing else, and a list that stays has its other entries in their order. A variable counts as
often less as the deleted rules name it. -/
theorem deletions_free {ds : List Deletion} (hl : Laid rules k xs h R) (hfound : NamesFound parseArg vars xs)
    (hds : Deletes xs ds ys) :
    ∃ h' vars', Machine.perform (Deletion.exec k parseArg rules) (h,vars) ds = .ok (h',vars') ∧
      Laid rules k ys h' (R.without (gone xs ys)) ∧ NamesFound parseArg vars' ys ∧
      (∀ x, (h' x).isSome ↔ (h x).isSome ∧ x ∉ gone xs ys) ∧ (∀ x, x ∉ gone xs ys → h'.dataOf x = h.dataOf x) ∧
      (∀ a p n, R.ring a = some p → a ∉ gone xs ys → p.length < n →
        listForEach h' a n = .ok (p.filter (· ∉ gone xs ys))) ∧
      ∀ name, vars'.refs name + (xs.flatMap RuleBlock.varNames).count name =
        vars.refs name + (ys.flatMap RuleBlock.varNames).count name := by
  obtain ⟨h',vars',names,hok,hperm,hvars,hlaid,hf⟩ := hl.deletions hfound hds
  have hnames : ∀ name ∈ names, (lookupVar parseArg vars name).1.isSome = true :=
    fun name hname => hfound name (hperm.subset (List.mem_append_left _ hname))
  obtain ⟨vars₁,hvars₁,hrefs,hkept⟩ := changeRefs_found (-1) hnames
  obtain rfl := Except.ok.inj (hvars.symm.trans hvars₁)
  refine ⟨h',vars',hok,hlaid,fun name hname => ?_,hf.domain,hf.data,fun a p n ha hgone hn => ?_,fun name => ?_⟩
  · exact (hkept name).trans (hfound name (hperm.subset (List.mem_append_right _ hname)))
  · refine listForEach_eq hf.realizes ?_ ((List.length_filter_le _ _).trans_lt hn)
    simp only [Rings.without, if_neg hgone, ha, Option.map_some]
  · rw [hrefs, ← hperm.count_eq, List.count_append]
    omega

/-- A rule with a condition, an action and an undo, which name a variable and a string, -/
def lowBlock : RuleBlock where
  node := 10
  id := 14
  name := "low"
  conditions := [⟨⟨20,[⟨30,.var 31,"limit"⟩]⟩,1,22⟩]
  actions := [⟨40,[⟨42,.str 43,"low"⟩]⟩]
  undos := [⟨50,[]⟩]

/-- and another one on the same event. -/
def hintBlock : RuleBlock where
  node := 70
  id := 74
  name := "hint"
  conditions := [⟨⟨80,[]⟩,1,82⟩]
  actions := [⟨90,[⟨92,.value,""⟩,⟨94,.var 95,"limit"⟩]⟩]
  undos := [⟨100,[⟨102,.var 103,"limit"⟩]⟩]

/-- The two rules in memory, and another listener between those of their conditions. -/
def twoRules : List (ℕ × Node Body) :=
  [(0,⟨some 10,some 70,.head⟩),(10,⟨some 70,some 0,.rule 14⟩),(70,⟨some 0,some 10,.rule 74⟩),
    (1,⟨some 22,some 82,.head⟩),(22,⟨some 5,some 1,.listener 20⟩),(5,⟨some 82,some 22,.listener 6⟩),
    (82,⟨some 1,some 5,.listener 80⟩),
    (11,⟨some 20,some 20,.head⟩),(20,⟨some 11,some 11,.condition 1⟩),
    (12,⟨some 40,some 40,.head⟩),(40,⟨some 12,some 12,.action⟩),
    (13,⟨some 50,some 50,.head⟩),(50,⟨some 13,some 13,.action⟩),
    (21,⟨some 30,some 30,.head⟩),(30,⟨some 21,some 21,.arg (.var 31)⟩),
    (41,⟨some 42,some 42,.head⟩),(42,⟨some 41,some 41,.arg (.str 43)⟩),(51,⟨some 51,some 51,.head⟩),
    (71,⟨some 80,some 80,.head⟩),(80,⟨some 71,some 71,.condition 1⟩),
    (72,⟨some 90,some 90,.head⟩),(90,⟨some 72,some 72,.action⟩),
    (73,⟨some 100,some 100,.head⟩),(100,⟨some 73,some 73,.action⟩),(81,⟨some 81,some 81,.head⟩),
    (91,⟨some 92,some 94,.head⟩),(92,⟨some 94,some 91,.arg .value⟩),(94,⟨some 91,some 92,.arg (.var 95)⟩),
    (101,⟨some 102,some 102,.head⟩),(102,⟨some 101,some 101,.arg (.var 103)⟩),
    (14,⟨none,none,.text "low"⟩),(31,⟨none,none,.text "limit"⟩),(43,⟨none,none,.text "low"⟩),
    (74,⟨none,none,.text "hint"⟩),(95,⟨none,none,.text "limit"⟩),(103,⟨none,none,.text "limit"⟩)]

def twoRulesMemory : Memory := fun x => twoRules.lookup x

def twoRulesRings : Rings :=
  .ofTable [(0,[10,70]),(1,[22,5,82]),(11,[20]),(12,[40]),(13,[50]),(21,[30]),(41,[42]),(51,[]),(71,[80]),(72,[90]),
    (73,[100]),(81,[]),(91,[92,94]),(101,[102])] [14,31,43,74,95,103]

lemma isSome_twoRulesMemory {x : ℕ} : (twoRulesMemory x).isSome ↔ x ∈ twoRules.map Prod.fst := by
  simp [twoRulesMemory, List.lookup_isSome_iff]

lemma twoRules_laid : Laid 0 50 [lowBlock,hintBlock] twoRulesMemory twoRulesRings := by
  refine ⟨.ofTable (by decide) (by decide) fun x => ?_,rfl,?_,?_,by decide,by decide,by decide,by decide⟩
  · rw [isSome_twoRulesMemory]
    exact List.Perm.mem_iff (by decide)
  · refine List.forall_mem_cons.mpr ⟨⟨by decide,?_,by decide⟩,List.forall_mem_singleton.mpr ⟨by decide,?_,by decide⟩⟩
    · simp [lowBlock, RuleBlock.bodies, ConditionBlock.bodies, ItemBlock.bodies, ArgBlock.bodies, ArgData.text,
        twoRulesRings, Rings.ofTable]
      grind
    · simp [hintBlock, RuleBlock.bodies, ConditionBlock.bodies, ItemBlock.bodies, ArgBlock.bodies, ArgData.text,
        twoRulesRings, Rings.ofTable]
      grind
  · refine List.forall_mem_cons.mpr ⟨List.forall_mem_singleton.mpr ?_,List.forall_mem_singleton.mpr
      (List.forall_mem_singleton.mpr ?_)⟩
    · exact ⟨[],[5,82],rfl,by decide,by decide⟩
    · exact ⟨[22,5],[],rfl,by decide,by decide⟩

/-- The variable that the rules name, with its three references. -/
def limitVars : VarStore := ⟨[⟨"limit",.int 10,3⟩],fun _ => none⟩

/-- One rule is deleted and then all: the other listener stays and nothing of the rules, and the variable can be
deleted again. -/
theorem deletions_free_both : ∃ h' vars',
    Machine.perform (Deletion.exec 50 (fun _ => none) 0) (twoRulesMemory,limitVars) [.rule 10,.all] = .ok (h',vars') ∧
    listForEach h' 1 4 = .ok [5] ∧ vars'.refs "limit" = 0 ∧ ∀ x, (h' x).isSome ↔ x ∈ [0,1,5] := by
  obtain ⟨h',vars',hok,-,-,hdomain,-,hlists,hrefs⟩ := @deletions_free _ _ _ _ _ _ (fun _ => none) limitVars _
    twoRules_laid (by unfold NamesFound; decide) (.rule (l := []) (x := lowBlock) (m := [hintBlock]) (.all .nil))
  refine ⟨h',vars',hok,hlists 1 [22,5,82] 4 rfl (by decide) (by decide),?_,fun x => ?_⟩
  · have hlimit := hrefs "limit"
    rw [show limitVars.refs "limit" = 3 from rfl] at hlimit
    have hcount : ([lowBlock,hintBlock].flatMap RuleBlock.varNames).count "limit" = 3 := by decide
    rw [hcount, List.flatMap_nil, List.count_nil] at hlimit
    omega
  · rw [hdomain, isSome_twoRulesMemory]
    have hkeys : ∀ y ∈ twoRules.map Prod.fst, y ∉ gone [lowBlock,hintBlock] [] ↔ y ∈ [0,1,5] := by decide
    refine ⟨fun ⟨hx,hout⟩ => (hkeys x hx).mp hout,fun hx => ?_⟩
    have hkey : x ∈ twoRules.map Prod.fst :=
      (show [0,1,5] ⊆ twoRules.map Prod.fst by decide) hx
    exact ⟨hkey,(hkeys x hkey).mpr hx⟩

end Deleting

end Xctools.Xcpmd
