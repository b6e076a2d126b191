import Mathlib.Data.List.Nodup
import Xctools.Machine.Outcome

/-! Doubly linked rings in a heap. A path follows `next` from one node to another, with `prev` as
its inverse; a ring is a path from a node back to itself. -/
namespace Xctools.Machine

/-- A node of a doubly linked list. -/
structure Node (α : Type*) where
  next : Option ℕ
  prev : Option ℕ
  data : α
  deriving DecidableEq, Repr

/-- The nodes that are allocated. -/
abbrev Heap (α : Type*) := ℕ → Option (Node α)

namespace Heap
variable {α : Type*} (h : Heap α)

/-- Following a pointer: NULL stops the process, and so does memory that was released. -/
def read (p : Option ℕ) : Outcome (Node α) :=
  match p with
  | none => .error .null
  | some a => match h a with
    | none => .error .wild
    | some node => .ok node

/-- Storing a node at an address. -/
def set (a : ℕ) (node : Node α) : Heap α := fun b => if b = a then some node else h b

/-- The heap with the node at `a` changed. -/
def update (a : ℕ) (f : Node α → Node α) : Heap α := fun b => if b = a then (h b).map f else h b

/-- The heap without the node at `a`. -/
def erase (a : ℕ) : Heap α := fun b => if b = a then none else h b

/-- Changing the node a pointer leads to. -/
def modify (p : Option ℕ) (f : Node α → Node α) : Outcome (Heap α) :=
  match p with
  | none => .error .null
  | some a => match h a with
    | none => .error .wild
    | some _ => .ok (h.update a f)

/-- `free` of a node. -/
def release (a : ℕ) : Outcome (Heap α) :=
  match h a with
  | none => .error .wild
  | some _ => .ok (h.erase a)

def nextOf (a : ℕ) : Option ℕ := (h a).bind Node.next
def prevOf (a : ℕ) : Option ℕ := (h a).bind Node.prev
def dataOf (a : ℕ) : Option α := (h a).map Node.data

/-- The edge from `a` to `b`, in both directions. -/
def Linked (a b : ℕ) : Prop := h.nextOf a = some b ∧ h.prevOf b = some a

/-- From `a` over the nodes of a list to `b`. -/
def Path : ℕ → List ℕ → ℕ → Prop
  | a, [], b => h.Linked a b
  | a, x :: l, b => h.Linked a x ∧ Path x l b

instance (a b : ℕ) : Decidable (h.Linked a b) := inferInstanceAs (Decidable (_ ∧ _))

instance decidablePath : ∀ a l b, Decidable (h.Path a l b)
  | a, [], b => inferInstanceAs (Decidable (h.Linked a b))
  | _, x :: l, b => @instDecidableAnd _ _ _ (decidablePath x l b)

variable {h} {h' : Heap α}

lemma read_some {a : ℕ} {node : Node α} (ha : h a = some node) : h.read (some a) = .ok node := by
  simp [read, ha]

lemma modify_some {a : ℕ} (ha : (h a).isSome) (f : Node α → Node α) :
    h.modify (some a) f = .ok (h.update a f) := by
  obtain ⟨node,hn⟩ := Option.isSome_iff_exists.mp ha
  simp [modify, hn]

lemma release_some {a : ℕ} (ha : (h a).isSome) : h.release a = .ok (h.erase a) := by
  obtain ⟨node,hn⟩ := Option.isSome_iff_exists.mp ha
  simp [release, hn]

@[simp] lemma isSome_update (a b : ℕ) (f : Node α → Node α) :
    (h.update a f b).isSome = (h b).isSome := by
  by_cases hb : b = a <;> simp [update, hb]

@[simp] lemma isSome_set (a b : ℕ) (node : Node α) :
    (h.set a node b).isSome ↔ b = a ∨ (h b).isSome := by
  by_cases hb : b = a <;> simp [set, hb]

@[simp] lemma isSome_erase (a b : ℕ) : (h.erase a b).isSome ↔ b ≠ a ∧ (h b).isSome := by
  by_cases hb : b = a <;> simp [erase, hb]

lemma nextOf_set (a b : ℕ) (node : Node α) :
    (h.set a node).nextOf b = if b = a then node.next else h.nextOf b := by
  by_cases hb : b = a <;> simp [nextOf, set, hb]

lemma prevOf_set (a b : ℕ) (node : Node α) :
    (h.set a node).prevOf b = if b = a then node.prev else h.prevOf b := by
  by_cases hb : b = a <;> simp [prevOf, set, hb]

lemma dataOf_set (a b : ℕ) (node : Node α) :
    (h.set a node).dataOf b = if b = a then some node.data else h.dataOf b := by
  by_cases hb : b = a <;> simp [dataOf, set, hb]

lemma nextOf_setNext {a : ℕ} (ha : (h a).isSome) (v : Option ℕ) (b : ℕ) :
    (h.update a fun node => { node with next := v }).nextOf b = if b = a then v else h.nextOf b := by
  obtain ⟨node,hn⟩ := Option.isSome_iff_exists.mp ha
  by_cases hb : b = a <;> simp [nextOf, update, hb, hn]

lemma prevOf_setPrev {a : ℕ} (ha : (h a).isSome) (v : Option ℕ) (b : ℕ) :
    (h.update a fun node => { node with prev := v }).prevOf b = if b = a then v else h.prevOf b := by
  obtain ⟨node,hn⟩ := Option.isSome_iff_exists.mp ha
  by_cases hb : b = a <;> simp [prevOf, update, hb, hn]

@[simp] lemma nextOf_setPrev (a : ℕ) (v : Option ℕ) (b : ℕ) :
    (h.update a fun node => { node with prev := v }).nextOf b = h.nextOf b := by
  by_cases hb : b = a
  · cases hh : h a <;> simp [nextOf, update, hb, hh]
  · simp [nextOf, update, hb]

@[simp] lemma prevOf_setNext (a : ℕ) (v : Option ℕ) (b : ℕ) :
    (h.update a fun node => { node with next := v }).prevOf b = h.prevOf b := by
  by_cases hb : b = a
  · cases hh : h a <;> simp [prevOf, update, hb, hh]
  · simp [prevOf, update, hb]

lemma dataOf_update {f : Node α → Node α} (hf : ∀ node, (f node).data = node.data) (a b : ℕ) :
    (h.update a f).dataOf b = h.dataOf b := by
  by_cases hb : b = a
  · cases hh : h a <;> simp [dataOf, update, hb, hh, hf]
  · simp [dataOf, update, hb]

lemma nextOf_erase {a b : ℕ} (hb : b ≠ a) : (h.erase a).nextOf b = h.nextOf b := by
  simp [nextOf, erase, hb]

lemma prevOf_erase {a b : ℕ} (hb : b ≠ a) : (h.erase a).prevOf b = h.prevOf b := by
  simp [prevOf, erase, hb]

lemma exists_of_nextOf {a b : ℕ} (hn : h.nextOf a = some b) :
    ∃ node, h a = some node ∧ node.next = some b :=
  Option.bind_eq_some_iff.mp hn

lemma isSome_of_nextOf {a b : ℕ} (hn : h.nextOf a = some b) : (h a).isSome := by
  obtain ⟨node,hnode,-⟩ := exists_of_nextOf hn
  simp [hnode]

lemma isSome_of_prevOf {a b : ℕ} (hn : h.prevOf a = some b) : (h a).isSome := by
  obtain ⟨node,hnode,-⟩ := Option.bind_eq_some_iff.mp hn
  simp [hnode]

lemma path_append {a b x : ℕ} {l m : List ℕ} :
    h.Path a (l ++ x :: m) b ↔ h.Path a l x ∧ h.Path x m b := by
  induction l generalizing a with
  | nil => rfl
  | cons y l ih => simp [Path, ih, and_assoc]

/-- A path lives on the `next` of its start and of its nodes, and on the `prev` of its nodes and of
its end. -/
lemma Path.frame {a b : ℕ} {l : List ℕ} (hp : h.Path a l b)
    (hn : ∀ x ∈ a :: l, h'.nextOf x = h.nextOf x)
    (hv : ∀ x ∈ l ++ [b], h'.prevOf x = h.prevOf x) : h'.Path a l b := by
  induction l generalizing a with
  | nil => exact ⟨(hn a (by simp)).trans hp.1,(hv b (by simp)).trans hp.2⟩
  | cons y l ih =>
    obtain ⟨⟨hay,hya⟩,hp⟩ := hp
    refine ⟨⟨(hn a (by simp)).trans hay,(hv y (by simp)).trans hya⟩,ih hp ?_ ?_⟩
    · exact fun x hx => hn x (List.mem_cons_of_mem _ hx)
    · exact fun x hx => hv x (List.mem_cons_of_mem _ hx)

/-- Before the end of a path stands its last node. -/
lemma Path.prev_end {a b : ℕ} {l : List ℕ} (hp : h.Path a l b) :
    h.prevOf b = some (l.getLastD a) := by
  induction l generalizing a with
  | nil => exact hp.2
  | cons y l ih =>
    rw [List.getLastD_cons]
    exact ih hp.2

/-- After the start of a path stands its first node. -/
lemma Path.next_start {a b : ℕ} {l : List ℕ} (hp : h.Path a l b) :
    h.nextOf a = some (l.headD b) := by
  cases l with
  | nil => exact hp.1
  | cons y l => exact hp.1.1

/-- Before the first node of a path stands its start. -/
lemma Path.prev_first {a b : ℕ} {l : List ℕ} (hp : h.Path a l b) :
    h.prevOf (l.headD b) = some a := by
  cases l with
  | nil => exact hp.2
  | cons y l => exact hp.1.2

/-- The last node of a path leads to its end. -/
lemma Path.next_last {a b : ℕ} {l : List ℕ} (hp : h.Path a l b) :
    h.nextOf (l.getLastD a) = some b := by
  induction l generalizing a with
  | nil => exact hp.1
  | cons y l ih =>
    rw [List.getLastD_cons]
    exact ih hp.2

/-- Putting a node before the end of a path. -/
lemma Path.insert {a b n : ℕ} {l : List ℕ} (hp : h.Path a l b) (hd : (a :: l).Nodup)
    (hb : b ∉ l) (hn : n ∉ a :: l)
    (htail : h'.nextOf (l.getLastD a) = some n) (hprev : h'.prevOf n = some (l.getLastD a))
    (hnext : h'.nextOf n = some b) (hend : h'.prevOf b = some n)
    (hframe : ∀ x, x ≠ n → (x ≠ l.getLastD a → h'.nextOf x = h.nextOf x) ∧
      (x ≠ b → h'.prevOf x = h.prevOf x)) :
    h'.Path a (l ++ [n]) b := by
  induction l generalizing a with
  | nil => exact ⟨⟨htail,hprev⟩,hnext,hend⟩
  | cons y l ih =>
    rw [List.getLastD_cons] at htail hprev hframe
    obtain ⟨⟨hay,hya⟩,hp⟩ := hp
    obtain ⟨ha,hd'⟩ := List.nodup_cons.mp hd
    obtain ⟨hby,hbl⟩ := List.ne_and_not_mem_of_not_mem_cons hb
    obtain ⟨hna,hnl⟩ := List.ne_and_not_mem_of_not_mem_cons hn
    have hane : a ≠ l.getLastD y := fun heq => ha (heq ▸ List.getLastD_mem_cons)
    have hny : y ≠ n := fun heq => hnl (heq ▸ List.mem_cons_self)
    refine ⟨⟨?_,?_⟩,ih hp hd' hbl hnl htail hprev hframe⟩
    · rw [(hframe a hna.symm).1 hane, hay]
    · rw [(hframe y hny).2 hby.symm, hya]

/-- Taking a node out of a path. -/
lemma Path.remove {a b x : ℕ} {p q : List ℕ} (hp : h.Path a p x) (hq : h.Path x q b)
    (hd : (a :: p ++ x :: q).Nodup) (hb : b ∉ p ++ x :: q)
    (hpred : h'.nextOf (p.getLastD a) = some (q.headD b))
    (hsucc : h'.prevOf (q.headD b) = some (p.getLastD a))
    (hframe : ∀ y, y ≠ x → (y ≠ p.getLastD a → h'.nextOf y = h.nextOf y) ∧
      (y ≠ q.headD b → h'.prevOf y = h.prevOf y)) :
    h'.Path a (p ++ q) b := by
  induction p generalizing a with
  | nil =>
    simp only [List.getLastD_nil, List.nil_append, List.cons_append] at hframe hd hb
    cases q with
    | nil => exact ⟨hpred,hsucc⟩
    | cons y q =>
      refine ⟨⟨hpred,hsucc⟩,hq.2.frame (fun z hz => ?_) (fun z hz => ?_)⟩
      · exact (hframe z (by grind)).1 (by grind)
      · exact (hframe z (by grind)).2 (by grind)
  | cons y p ih =>
    rw [List.getLastD_cons] at hpred hsucc hframe
    obtain ⟨⟨hay,hya⟩,hp⟩ := hp
    simp only [List.cons_append] at hd hb
    have hane : a ≠ p.getLastD y := by
      intro heq
      have := List.getLastD_mem_cons (l := p) (a := y)
      grind
    have hyne : y ≠ q.headD b := by
      cases q <;> grind
    refine ⟨⟨?_,?_⟩,ih hp (List.nodup_cons.mp hd).2 (by grind) hpred hsucc hframe⟩
    · rw [(hframe a (by grind)).1 hane, hay]
    · rw [(hframe y (by grind)).2 hyne, hya]

/-- The two stores and the new node that put `n` between the last node of a ring and its first. -/
def link (a tail n : ℕ) (data : α) (h : Heap α) : Heap α :=
  ((h.update tail fun node => { node with next := some n }).update a
    fun node => { node with prev := some n }).set n ⟨some a, some tail, data⟩

lemma Path.link {a n : ℕ} {l : List ℕ} (hp : h.Path a l a) (hd : (a :: l).Nodup)
    (hn : n ∉ a :: l) (data : α) : (h.link a (l.getLastD a) n data).Path a (l ++ [n]) a := by
  have hlast := isSome_of_nextOf hp.next_last
  have hfirst := isSome_of_nextOf hp.next_start
  have htn : l.getLastD a ≠ n := fun heq => hn (heq ▸ List.getLastD_mem_cons)
  have han : a ≠ n := fun heq => hn (heq ▸ List.mem_cons_self)
  have hnext : ∀ x, (h.link a (l.getLastD a) n data).nextOf x =
      if x = n then some a else if x = l.getLastD a then some n else h.nextOf x := by
    intro x
    rw [Heap.link, nextOf_set, nextOf_setPrev, nextOf_setNext hlast]
  have hprev : ∀ x, (h.link a (l.getLastD a) n data).prevOf x =
      if x = n then some (l.getLastD a) else if x = a then some n else h.prevOf x := by
    intro x
    rw [Heap.link, prevOf_set, prevOf_setPrev (by rwa [isSome_update]), prevOf_setNext]
  refine hp.insert hd (List.nodup_cons.mp hd).1 hn ?_ ?_ ?_ ?_ fun x hx => ⟨fun hxt => ?_,fun hxa => ?_⟩
  · rw [hnext, if_neg htn, if_pos rfl]
  · rw [hprev, if_pos rfl]
  · rw [hnext, if_pos rfl]
  · rw [hprev, if_neg han, if_pos rfl]
  · rw [hnext, if_neg hx, if_neg hxt]
  · rw [hprev, if_neg hx, if_neg hxa]

/-- The two stores and the new node that make a ring of `a` and `n`. -/
def pair (a n : ℕ) (data : α) (h : Heap α) : Heap α :=
  (h.update a fun node => { node with prev := some n, next := some n }).set n ⟨some a, some a, data⟩

lemma path_pair {a n : ℕ} (ha : (h a).isSome) (hne : a ≠ n) (data : α) :
    (h.pair a n data).Path a [n] a := by
  obtain ⟨node,hn⟩ := Option.isSome_iff_exists.mp ha
  have hfirst : h.pair a n data a = some ⟨some n, some n, node.data⟩ := by
    simp [pair, set, update, hne, hn]
  refine ⟨⟨?_,?_⟩,?_,?_⟩
  · simp [nextOf, hfirst]
  · simp [pair, prevOf_set]
  · simp [pair, nextOf_set]
  · simp [prevOf, hfirst]

/-- The two stores and the release that take `x` out from between its neighbours. -/
def unlink (x pred succ : ℕ) (h : Heap α) : Heap α :=
  ((h.update succ fun node => { node with prev := some pred }).update pred
    fun node => { node with next := some succ }).erase x

lemma Path.unlink {a x : ℕ} {p q : List ℕ} (hp : h.Path a (p ++ x :: q) a)
    (hd : (a :: p ++ x :: q).Nodup) :
    (h.unlink x (p.getLastD a) (q.headD a)).Path a (p ++ q) a := by
  obtain ⟨hp,hq⟩ := path_append.mp hp
  have hb : a ∉ p ++ x :: q := (List.nodup_cons.mp hd).1
  have hpred := isSome_of_nextOf hp.next_last
  have hsucc := isSome_of_prevOf hq.prev_first
  have hpx : p.getLastD a ≠ x := by
    intro heq
    have := List.getLastD_mem_cons (l := p) (a := a)
    grind
  have hsx : q.headD a ≠ x := by cases q <;> grind
  have hnext : ∀ y, y ≠ x → (h.unlink x (p.getLastD a) (q.headD a)).nextOf y =
      if y = p.getLastD a then some (q.headD a) else h.nextOf y := by
    intro y hy
    rw [Heap.unlink, nextOf_erase hy, nextOf_setNext (by rwa [isSome_update]), nextOf_setPrev]
  have hprev : ∀ y, y ≠ x → (h.unlink x (p.getLastD a) (q.headD a)).prevOf y =
      if y = q.headD a then some (p.getLastD a) else h.prevOf y := by
    intro y hy
    rw [Heap.unlink, prevOf_erase hy, prevOf_setNext, prevOf_setPrev hsucc]
  refine hp.remove hq hd hb ?_ ?_ fun y hy => ⟨fun hyp => ?_,fun hys => ?_⟩
  · rw [hnext _ hpx, if_pos rfl]
  · rw [hprev _ hsx, if_pos rfl]
  · rw [hnext _ hy, if_neg hyp]
  · rw [hprev _ hy, if_neg hys]

end Heap

end Xctools.Machine
