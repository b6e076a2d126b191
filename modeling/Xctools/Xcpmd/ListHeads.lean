import Mathlib.Data.List.Induction
import Xctools.Machine.Rings
import Xctools.Machine.Run

/-! The lists of `list.h`: rings of `struct list_head`, one of which is the head of the list. -/
namespace Xctools.Xcpmd
open Machine

section Pointers

/-- `struct list_head`, each with what the structure around it holds besides. -/
abbrev ListHeads (α : Type) := Heap α

variable {α : Type}

def ListHeads.setNext (h : ListHeads α) (p v : Option ℕ) : Outcome (ListHeads α) := h.modify p fun x => { x with next := v }
def ListHeads.setPrev (h : ListHeads α) (p v : Option ℕ) : Outcome (ListHeads α) := h.modify p fun x => { x with prev := v }

/-- `INIT_LIST_HEAD`. -/
def initListHead (h : ListHeads α) (ptr : ℕ) : Outcome (ListHeads α) := do
  let h ← h.setNext (some ptr) (some ptr)
  h.setPrev (some ptr) (some ptr)

/-- `__list_add`. -/
def rawListAdd (h : ListHeads α) (new : ℕ) (prev next : Option ℕ) : Outcome (ListHeads α) := do
  let h ← h.setPrev next (some new)
  let h ← h.setNext (some new) next
  let h ← h.setPrev (some new) prev
  h.setNext prev (some new)

/-- `list_add`. -/
def listAdd (h : ListHeads α) (new head : ℕ) : Outcome (ListHeads α) := do
  let node ← h.read (some head)
  rawListAdd h new (some head) node.next

/-- `list_add_tail`. -/
def listAddTail (h : ListHeads α) (new head : ℕ) : Outcome (ListHeads α) := do
  let node ← h.read (some head)
  rawListAdd h new node.prev (some head)

/-- `__list_del`. -/
def rawListDel (h : ListHeads α) (prev next : Option ℕ) : Outcome (ListHeads α) := do
  let h ← h.setPrev next prev
  h.setNext prev next

/-- `list_del`. -/
def listDel (h : ListHeads α) (entry : ℕ) : Outcome (ListHeads α) := do
  let node ← h.read (some entry)
  let h ← rawListDel h node.prev node.next
  let h ← h.setNext (some entry) none
  h.setPrev (some entry) none

/-- `list_del_init`. -/
def listDelInit (h : ListHeads α) (entry : ℕ) : Outcome (ListHeads α) := do
  let node ← h.read (some entry)
  let h ← rawListDel h node.prev node.next
  initListHead h entry

/-- `list_move`. -/
def listMove (h : ListHeads α) (list head : ℕ) : Outcome (ListHeads α) := do
  let node ← h.read (some list)
  let h ← rawListDel h node.prev node.next
  listAdd h list head

/-- `list_move_tail`. -/
def listMoveTail (h : ListHeads α) (list head : ℕ) : Outcome (ListHeads α) := do
  let node ← h.read (some list)
  let h ← rawListDel h node.prev node.next
  listAddTail h list head

/-- `list_empty`. -/
def listEmpty (h : ListHeads α) (head : ℕ) : Outcome Bool := do
  let node ← h.read (some head)
  return node.next == some head

/-- `__list_splice`. -/
def rawListSplice (h : ListHeads α) (list head : ℕ) : Outcome (ListHeads α) := do
  let node ← h.read (some list)
  let first := node.next
  let last := node.prev
  let node ← h.read (some head)
  let at' := node.next
  let h ← h.setPrev first (some head)
  let h ← h.setNext (some head) first
  let h ← h.setNext last at'
  h.setPrev at' last

/-- `list_splice`. -/
def listSplice (h : ListHeads α) (list head : ℕ) : Outcome (ListHeads α) := do
  if ← listEmpty h list then return h
  rawListSplice h list head

/-- `list_splice_init`. -/
def listSpliceInit (h : ListHeads α) (list head : ℕ) : Outcome (ListHeads α) := do
  if ← listEmpty h list then return h
  let h ← rawListSplice h list head
  initListHead h list

/-- The entries that a loop over a list visits, from `pos` on in one direction. -/
def walk (dir : Node α → Option ℕ) (h : ListHeads α) (head : ℕ) : ℕ → Option ℕ → Outcome (List ℕ)
  | 0, _ => .error .loop
  | _ + 1, none => .error .null
  | n + 1, some pos =>
    if pos = head then .ok []
    else do
      let node ← h.read (some pos)
      let rest ← walk dir h head n (dir node)
      return pos :: rest

/-- `list_for_each`. -/
def listForEach (h : ListHeads α) (head n : ℕ) : Outcome (List ℕ) := do
  let node ← h.read (some head)
  walk Node.next h head n node.next

/-- `list_for_each_prev`. -/
def listForEachPrev (h : ListHeads α) (head n : ℕ) : Outcome (List ℕ) := do
  let node ← h.read (some head)
  walk Node.prev h head n node.prev

end Pointers

section Stores

/-- The pointers of all nodes, and that the nodes are the same with the same data. -/
structure Points {α : Type} (h h' : ListHeads α) (next prev : ℕ → Option ℕ) : Prop where
  next_eq : h'.nextOf = next
  prev_eq : h'.prevOf = prev
  data_eq : h'.dataOf = h.dataOf

variable {α : Type} {h h' : ListHeads α} {a b x n p q : ℕ} {R : Rings} {l m : List ℕ}

/-- The same nodes are allocated if their data is the same. -/
lemma isSome_of_dataOf (hdata : h'.dataOf = h.dataOf) (x : ℕ) : (h' x).isSome = (h x).isSome := by
  have hx := congrFun hdata x
  rw [Heap.dataOf, Heap.dataOf] at hx
  rw [← Option.isSome_map (f := Node.data), ← Option.isSome_map (f := Node.data), hx]

lemma Points.domain {next prev : ℕ → Option ℕ} (hp : Points h h' next prev) (x : ℕ) : (h' x).isSome = (h x).isSome :=
  isSome_of_dataOf hp.data_eq x

lemma setNext_points (ha : (h a).isSome) (v : Option ℕ) :
    ∃ h', h.setNext (some a) v = .ok h' ∧ Points h h' (Function.update h.nextOf a v) h.prevOf := by
  refine ⟨_,Heap.modify_some ha _,funext fun x => ?_,funext fun x => Heap.prevOf_setNext a v x,
    funext fun x => ?_⟩
  · rw [Heap.nextOf_setNext ha, Function.update_apply]
  · exact Heap.dataOf_update (by simp) a x

lemma setPrev_points (ha : (h a).isSome) (v : Option ℕ) :
    ∃ h', h.setPrev (some a) v = .ok h' ∧ Points h h' h.nextOf (Function.update h.prevOf a v) := by
  refine ⟨_,Heap.modify_some ha _,funext fun x => Heap.nextOf_setPrev a v x,funext fun x => ?_,
    funext fun x => ?_⟩
  · rw [Heap.prevOf_setPrev ha, Function.update_apply]
  · exact Heap.dataOf_update (by simp) a x

lemma initListHead_points (ha : (h a).isSome) : ∃ h', initListHead h a = .ok h' ∧
    Points h h' (Function.update h.nextOf a (some a)) (Function.update h.prevOf a (some a)) := by
  obtain ⟨h₁,hok₁,hp₁⟩ := setNext_points ha (some a)
  obtain ⟨h₂,hok₂,hp₂⟩ := setPrev_points (h := h₁) (a := a) (by rwa [hp₁.domain]) (some a)
  refine ⟨h₂,?_,by rw [hp₂.next_eq,hp₁.next_eq],by rw [hp₂.prev_eq,hp₁.prev_eq],hp₂.data_eq.trans hp₁.data_eq⟩
  rw [initListHead, hok₁]
  exact hok₂

lemma rawListAdd_points (hn : (h n).isSome) (hp : (h p).isSome) (hq : (h q).isSome) :
    ∃ h', rawListAdd h n (some p) (some q) = .ok h' ∧
      Points h h' (Function.update (Function.update h.nextOf n (some q)) p (some n))
        (Function.update (Function.update h.prevOf q (some n)) n (some p)) := by
  obtain ⟨h₁,hok₁,hp₁⟩ := setPrev_points hq (some n)
  obtain ⟨h₂,hok₂,hp₂⟩ := setNext_points (h := h₁) (a := n) (by rwa [hp₁.domain]) (some q)
  obtain ⟨h₃,hok₃,hp₃⟩ := setPrev_points (h := h₂) (a := n) (by rwa [hp₂.domain,hp₁.domain]) (some p)
  obtain ⟨h₄,hok₄,hp₄⟩ := setNext_points (h := h₃) (a := p) (by rwa [hp₃.domain,hp₂.domain,hp₁.domain]) (some n)
  refine ⟨h₄,?_,?_,?_,?_⟩
  · simp only [rawListAdd, hok₁, hok₂, hok₃, ok_bind]
    exact hok₄
  · rw [hp₄.next_eq, hp₃.next_eq, hp₂.next_eq, hp₁.next_eq]
  · rw [hp₄.prev_eq, hp₃.prev_eq, hp₂.prev_eq, hp₁.prev_eq]
  · rw [hp₄.data_eq, hp₃.data_eq, hp₂.data_eq, hp₁.data_eq]

lemma rawListDel_points (hp : (h p).isSome) (hq : (h q).isSome) :
    ∃ h', rawListDel h (some p) (some q) = .ok h' ∧
      Points h h' (Function.update h.nextOf p (some q)) (Function.update h.prevOf q (some p)) := by
  obtain ⟨h₁,hok₁,hp₁⟩ := setPrev_points hq (some p)
  obtain ⟨h₂,hok₂,hp₂⟩ := setNext_points (h := h₁) (a := p) (by rwa [hp₁.domain]) (some q)
  refine ⟨h₂,?_,by rw [hp₂.next_eq,hp₁.next_eq],by rw [hp₂.prev_eq,hp₁.prev_eq],hp₂.data_eq.trans hp₁.data_eq⟩
  rw [rawListDel, hok₁]
  exact hok₂

/-- A node that is there can be read. -/
lemma read_eq (h : ListHeads α) (hnext : h.nextOf a = some p) (hprev : h.prevOf a = some q) :
    ∃ d, h.dataOf a = some d ∧ h.read (some a) = .ok ⟨some p,some q,d⟩ := by
  obtain ⟨node,hnode,hn⟩ := Heap.exists_of_nextOf hnext
  have hq : node.prev = some q := by simpa [Heap.prevOf,hnode] using hprev
  refine ⟨node.data,by simp [Heap.dataOf,hnode],?_⟩
  rw [Heap.read_some hnode, ← hn, ← hq]

end Stores

section Operations

/-- The lists have become these, and nothing else has changed. -/
structure Turns {α : Type} (h h' : ListHeads α) (R : Rings) : Prop where
  realizes : Realizes h' R
  data_eq : h'.dataOf = h.dataOf

variable {α : Type} {h h' : ListHeads α} {a b x n : ℕ} {R : Rings} {l m : List ℕ}

lemma Turns.domain (ht : Turns h h' R) (x : ℕ) : (h' x).isSome = (h x).isSome := isSome_of_dataOf ht.data_eq x

/-- `__list_add` puts a loose node between the two. -/
lemma rawListAdd_realizes (hR : Realizes h R) (ha : R.ring a = some (l ++ m)) (hn : n ∈ R.loose) :
    ∃ h', rawListAdd h n (some (l.getLastD a)) (some (m.headD a)) = .ok h' ∧ Turns h h' (R.set a (l ++ n :: m)) := by
  have hnodes := Rings.nodes_some ha
  obtain ⟨hlast,hfirst⟩ := Realizes.around ha
  have hd : (a :: (l ++ m)).Nodup := hnodes ▸ hR.nodup a
  have hnot : n ∉ a :: (l ++ m) := fun hmem => hR.loose a n (hnodes ▸ hmem) hn
  have hlastn : l.getLastD a ≠ n := fun heq => hnot (hnodes ▸ heq ▸ hlast)
  have hfirstn : m.headD a ≠ n := fun heq => hnot (hnodes ▸ heq ▸ hfirst)
  obtain ⟨h',hok,hp⟩ := rawListAdd_points ((hR.allocated n).mpr (.inl hn)) (hR.isSome_of_mem_nodes hlast)
    (hR.isSome_of_mem_nodes hfirst)
  have hperm : (a :: (l ++ n :: m)).Perm (n :: a :: (l ++ m)) :=
    (List.perm_middle.cons a).trans (.swap n a _)
  refine ⟨h',hok,hR.set ?_ ?_ ?_ ?_ hp.domain,hp.data_eq⟩
  · exact hperm.nodup_iff.mpr (List.nodup_cons.mpr ⟨hnot,hd⟩)
  · intro x hx
    rcases List.mem_cons.mp (hperm.mem_iff.mp hx) with rfl | hx
    · exact .inl hn
    · exact .inr (hnodes ▸ hx)
  · refine (hR.path a _ ha).insertBetween hd hnot ?_ ?_ ?_ ?_ fun x hx => ⟨fun hxl => ?_,fun hxf => ?_⟩
    · rw [hp.next_eq, Function.update_self]
    · rw [hp.prev_eq, Function.update_self]
    · rw [hp.next_eq, Function.update_of_ne hlastn.symm, Function.update_self]
    · rw [hp.prev_eq, Function.update_of_ne hfirstn, Function.update_self]
    · rw [hp.next_eq, Function.update_of_ne hxl, Function.update_of_ne hx]
    · rw [hp.prev_eq, Function.update_of_ne hx, Function.update_of_ne hxf]
  · intro x hloose hmem
    have hxn : x ≠ n := fun heq => hloose (heq ▸ hn)
    have hxl : x ≠ l.getLastD a := fun heq => hmem (heq ▸ hlast)
    have hxf : x ≠ m.headD a := fun heq => hmem (heq ▸ hfirst)
    rw [hp.next_eq, hp.prev_eq, Function.update_of_ne hxl, Function.update_of_ne hxn, Function.update_of_ne hxn,
      Function.update_of_ne hxf]
    exact ⟨rfl,rfl⟩

/-- `__list_del` of the neighbours of a node takes it out. -/
lemma rawListDel_realizes (hR : Realizes h R) (ha : R.ring a = some (l ++ x :: m)) :
    ∃ h', rawListDel h (some (l.getLastD a)) (some (m.headD a)) = .ok h' ∧ Turns h h' (R.set a (l ++ m)) := by
  have hnodes := Rings.nodes_some ha
  obtain ⟨hlast,-⟩ := Realizes.around ha
  have hfirst : m.headD a ∈ R.nodes a := by
    rw [hnodes]
    cases m <;> simp
  have hd : (a :: (l ++ x :: m)).Nodup := hnodes ▸ hR.nodup a
  obtain ⟨h',hok,hp⟩ := rawListDel_points (hR.isSome_of_mem_nodes hlast) (hR.isSome_of_mem_nodes hfirst)
  obtain ⟨hpl,hpm⟩ := Heap.path_append.mp (hR.path a _ ha)
  refine ⟨h',hok,hR.set ?_ ?_ ?_ ?_ hp.domain,hp.data_eq⟩
  · exact hd.sublist ((List.sublist_cons_self x m).append_left l |>.cons_cons a)
  · intro y hy
    right
    rw [hnodes]
    exact ((List.sublist_cons_self x m).append_left l |>.cons_cons a).subset hy
  · refine hpl.remove hpm hd (List.nodup_cons.mp hd).1 ?_ ?_ fun y _ => ⟨fun hyl => ?_,fun hyf => ?_⟩
    · rw [hp.next_eq, Function.update_self]
    · rw [hp.prev_eq, Function.update_self]
    · rw [hp.next_eq, Function.update_of_ne hyl]
    · rw [hp.prev_eq, Function.update_of_ne hyf]
  · intro y _ hmem
    have hyl : y ≠ l.getLastD a := fun heq => hmem (heq ▸ hlast)
    have hyf : y ≠ m.headD a := fun heq => hmem (heq ▸ hfirst)
    rw [hp.next_eq, hp.prev_eq, Function.update_of_ne hyl, Function.update_of_ne hyf]
    exact ⟨rfl,rfl⟩

/-- `INIT_LIST_HEAD` makes a loose node the head of an empty list. -/
lemma initListHead_realizes (hR : Realizes h R) (ha : a ∈ R.loose) :
    ∃ h', initListHead h a = .ok h' ∧ Turns h h' (R.set a []) := by
  obtain ⟨h',hok,hp⟩ := initListHead_points ((hR.allocated a).mpr (.inl ha))
  refine ⟨h',hok,hR.set (List.nodup_singleton a) ?_ ⟨?_,?_⟩ ?_ hp.domain,hp.data_eq⟩
  · intro x hx
    exact .inl (List.mem_singleton.mp hx ▸ ha)
  · rw [hp.next_eq, Function.update_self]
  · rw [hp.prev_eq, Function.update_self]
  · intro x hx _
    have hxa : x ≠ a := fun heq => hx (heq ▸ ha)
    rw [hp.next_eq, hp.prev_eq, Function.update_of_ne hxa, Function.update_of_ne hxa]
    exact ⟨rfl,rfl⟩

/-- `INIT_LIST_HEAD` of an empty list leaves it as it is. -/
lemma initListHead_empty (hR : Realizes h R) (ha : R.ring a = some []) :
    ∃ h', initListHead h a = .ok h' ∧ Turns h h' R := by
  obtain ⟨hnext,hprev⟩ := hR.head_pointers ha
  obtain ⟨h',hok,hp⟩ := initListHead_points (Heap.isSome_of_nextOf hnext)
  refine ⟨h',hok,hR.scribble (fun x _ => ?_) hp.domain,hp.data_eq⟩
  rw [hp.next_eq, hp.prev_eq, Function.update_eq_self_iff.mpr hnext.symm, Function.update_eq_self_iff.mpr hprev.symm]
  exact ⟨rfl,rfl⟩

lemma rawListSplice_points {first last at' : ℕ} (ha : h.nextOf a = some first) (ha' : h.prevOf a = some last)
    (hb : h.nextOf b = some at') (hfirst : (h first).isSome) (hlast : (h last).isSome) (hat : (h at').isSome) :
    ∃ h', rawListSplice h a b = .ok h' ∧
      Points h h' (Function.update (Function.update h.nextOf b (some first)) last (some at'))
        (Function.update (Function.update h.prevOf first (some b)) at' (some last)) := by
  obtain ⟨node,hnode,hn⟩ := Heap.exists_of_nextOf ha
  have hp : node.prev = some last := by simpa [Heap.prevOf,hnode] using ha'
  obtain ⟨node',hnode',hn'⟩ := Heap.exists_of_nextOf hb
  have hbs : (h b).isSome := Heap.isSome_of_nextOf hb
  obtain ⟨h₁,hok₁,hp₁⟩ := setPrev_points hfirst (some b)
  obtain ⟨h₂,hok₂,hp₂⟩ := setNext_points (h := h₁) (a := b) (by rwa [hp₁.domain]) (some first)
  obtain ⟨h₃,hok₃,hp₃⟩ := setNext_points (h := h₂) (a := last) (by rwa [hp₂.domain,hp₁.domain]) (some at')
  obtain ⟨h₄,hok₄,hp₄⟩ := setPrev_points (h := h₃) (a := at') (by rwa [hp₃.domain,hp₂.domain,hp₁.domain]) (some last)
  refine ⟨h₄,?_,?_,?_,?_⟩
  · simp only [rawListSplice, Heap.read_some hnode, Heap.read_some hnode', ok_bind, hn, hp, hn', hok₁, hok₂, hok₃]
    exact hok₄
  · rw [hp₄.next_eq, hp₃.next_eq, hp₂.next_eq, hp₁.next_eq]
  · rw [hp₄.prev_eq, hp₃.prev_eq, hp₂.prev_eq, hp₁.prev_eq]
  · rw [hp₄.data_eq, hp₃.data_eq, hp₂.data_eq, hp₁.data_eq]

/-- `__list_splice` puts the entries of a list, which is not empty, in front of those of another. Its head is in no
list then. -/
lemma rawListSplice_realizes (hR : Realizes h R) (ha : R.ring a = some l) (hl : l ≠ []) (hb : R.ring b = some m)
    (hne : a ≠ b) : ∃ h', rawListSplice h a b = .ok h' ∧ Turns h h' ((R.drop a).set b (l ++ m)) := by
  have hnodes := Rings.nodes_some ha
  have hnodes' := Rings.nodes_some hb
  have hd : (a :: l).Nodup := hnodes ▸ hR.nodup a
  have hd' : (b :: m).Nodup := hnodes' ▸ hR.nodup b
  have hdisj : (a :: l).Disjoint (b :: m) := hnodes ▸ hnodes' ▸ hR.apart a b hne
  obtain ⟨hnext,hprev⟩ := hR.head_pointers ha
  obtain ⟨hat,-⟩ := hR.head_pointers hb
  have hfirst : l.headD a ∈ l := by
    obtain ⟨y,l,rfl⟩ := List.exists_cons_of_ne_nil hl
    exact List.mem_cons_self
  have hlast : l.getLastD a ∈ l := by
    obtain ⟨y,l,rfl⟩ := List.exists_cons_of_ne_nil hl
    rw [List.getLastD_cons]
    exact List.getLastD_mem_cons
  have hatm : m.headD b ∈ b :: m := by cases m <;> simp
  have hfirsta : l.headD a ∈ R.nodes a := hnodes ▸ List.mem_cons_of_mem a hfirst
  have hlasta : l.getLastD a ∈ R.nodes a := hnodes ▸ List.mem_cons_of_mem a hlast
  have hatb : m.headD b ∈ R.nodes b := hnodes' ▸ hatm
  obtain ⟨h',hok,hp⟩ := rawListSplice_points hnext hprev hat (hR.isSome_of_mem_nodes hfirsta)
    (hR.isSome_of_mem_nodes hlasta) (hR.isSome_of_mem_nodes hatb)
  have hblast : b ≠ l.getLastD a := fun heq => hdisj (List.mem_cons_of_mem a hlast) (heq ▸ List.mem_cons_self)
  have hfirstat : l.headD a ≠ m.headD b := fun heq => hdisj (List.mem_cons_of_mem a hfirst) (heq ▸ hatm)
  refine ⟨h',hok,(hR.drop a).set ?_ ?_ ?_ ?_ hp.domain,hp.data_eq⟩
  · have hboth : (l ++ b :: m).Nodup := by
      refine List.nodup_append'.mpr ⟨(List.nodup_cons.mp hd).2,hd',fun x hx => ?_⟩
      exact hdisj (List.mem_cons_of_mem a hx)
    exact List.perm_middle.nodup_iff.mp hboth
  · intro x hx
    rw [Rings.nodes_drop_of_ne hne.symm, hnodes']
    rcases List.mem_cons.mp hx with rfl | hx
    · exact .inr List.mem_cons_self
    rcases List.mem_append.mp hx with hx | hx
    · exact .inl (.inr (hnodes ▸ List.mem_cons_of_mem a hx))
    · exact .inr (List.mem_cons_of_mem b hx)
  · refine (hR.path a _ ha).splice hl (hR.path b _ hb) hd hd' hdisj ?_ ?_ ?_ ?_ fun x =>
      ⟨fun hxb hxl => ?_,fun hxf hxa => ?_⟩
    · rw [hp.next_eq, Function.update_of_ne hblast, Function.update_self]
    · rw [hp.prev_eq, Function.update_of_ne hfirstat, Function.update_self]
    · rw [hp.next_eq, Function.update_self]
    · rw [hp.prev_eq, Function.update_self]
    · rw [hp.next_eq, Function.update_of_ne hxl, Function.update_of_ne hxb]
    · rw [hp.prev_eq, Function.update_of_ne hxa, Function.update_of_ne hxf]
  · intro x hloose hmem
    rw [Rings.nodes_drop_of_ne hne.symm] at hmem
    have hxa : x ∉ R.nodes a := fun hmem => hloose (.inr hmem)
    have hxl : x ≠ l.getLastD a := fun heq => hxa (heq ▸ hlasta)
    have hxf : x ≠ l.headD a := fun heq => hxa (heq ▸ hfirsta)
    rw [hnodes'] at hmem
    have hxat : x ≠ m.headD b := fun heq => hmem (heq ▸ hatm)
    have hxb : x ≠ b := fun heq => hmem (heq ▸ List.mem_cons_self)
    rw [hp.next_eq, hp.prev_eq, Function.update_of_ne hxl, Function.update_of_ne hxb, Function.update_of_ne hxat,
      Function.update_of_ne hxf]
    exact ⟨rfl,rfl⟩

lemma listAdd_realizes (hR : Realizes h R) (ha : R.ring a = some l) (hn : n ∈ R.loose) :
    ∃ h', listAdd h n a = .ok h' ∧ Turns h h' (R.set a (n :: l)) := by
  obtain ⟨hnext,hprev⟩ := hR.head_pointers ha
  obtain ⟨h',hok,hR'⟩ := rawListAdd_realizes (l := []) hR ha hn
  obtain ⟨d,-,hread⟩ := read_eq h hnext hprev
  refine ⟨h',?_,hR'⟩
  rw [listAdd, hread, ok_bind]
  exact hok

lemma listAddTail_realizes (hR : Realizes h R) (ha : R.ring a = some l) (hn : n ∈ R.loose) :
    ∃ h', listAddTail h n a = .ok h' ∧ Turns h h' (R.set a (l ++ [n])) := by
  obtain ⟨hnext,hprev⟩ := hR.head_pointers ha
  obtain ⟨h',hok,hR'⟩ := rawListAdd_realizes (l := l) (m := []) hR (by rwa [List.append_nil]) hn
  obtain ⟨d,-,hread⟩ := read_eq h hnext hprev
  refine ⟨h',?_,hR'⟩
  rw [listAddTail, hread, ok_bind]
  exact hok

lemma listDel_realizes (hR : Realizes h R) (ha : R.ring a = some (l ++ x :: m)) :
    ∃ h', listDel h x = .ok h' ∧ Turns h h' (R.set a (l ++ m)) := by
  obtain ⟨hnext,hprev⟩ := hR.pointers ha
  obtain ⟨d,-,hread⟩ := read_eq h hnext hprev
  obtain ⟨h₁,hok₁,hR₁,hdata₁⟩ := rawListDel_realizes hR ha
  have hloose := hR.mem_loose_set ha
  have hx : (h₁ x).isSome := (hR₁.allocated x).mpr (.inl hloose)
  obtain ⟨h₂,hok₂,hp₂⟩ := setNext_points hx none
  obtain ⟨h₃,hok₃,hp₃⟩ := setPrev_points (h := h₂) (a := x) (by rwa [hp₂.domain]) none
  refine ⟨h₃,?_,hR₁.scribble (fun y hy => ?_) fun y => by rw [hp₃.domain,hp₂.domain],
    by rw [hp₃.data_eq,hp₂.data_eq,hdata₁]⟩
  · simp only [listDel, hread, ok_bind, hok₁, hok₂]
    exact hok₃
  · have hyx : y ≠ x := fun heq => hy (heq ▸ hloose)
    rw [hp₃.next_eq, hp₃.prev_eq, hp₂.next_eq, hp₂.prev_eq, Function.update_of_ne hyx, Function.update_of_ne hyx]
    exact ⟨rfl,rfl⟩

lemma listDelInit_realizes (hR : Realizes h R) (ha : R.ring a = some (l ++ x :: m)) :
    ∃ h', listDelInit h x = .ok h' ∧ Turns h h' ((R.set a (l ++ m)).set x []) := by
  obtain ⟨hnext,hprev⟩ := hR.pointers ha
  obtain ⟨d,-,hread⟩ := read_eq h hnext hprev
  obtain ⟨h₁,hok₁,hR₁,hdata₁⟩ := rawListDel_realizes hR ha
  obtain ⟨h₂,hok₂,hR₂,hdata₂⟩ := initListHead_realizes hR₁ (hR.mem_loose_set ha)
  refine ⟨h₂,?_,hR₂,hdata₂.trans hdata₁⟩
  simp only [listDelInit, hread, ok_bind, hok₁]
  exact hok₂

lemma listMove_realizes {k : List ℕ} (hR : Realizes h R) (ha : R.ring a = some (l ++ x :: m))
    (hk : (R.set a (l ++ m)).ring b = some k) :
    ∃ h', listMove h x b = .ok h' ∧ Turns h h' ((R.set a (l ++ m)).set b (x :: k)) := by
  obtain ⟨hnext,hprev⟩ := hR.pointers ha
  obtain ⟨d,-,hread⟩ := read_eq h hnext hprev
  obtain ⟨h₁,hok₁,hR₁,hdata₁⟩ := rawListDel_realizes hR ha
  obtain ⟨h₂,hok₂,hR₂,hdata₂⟩ := listAdd_realizes hR₁ hk (hR.mem_loose_set ha)
  refine ⟨h₂,?_,hR₂,hdata₂.trans hdata₁⟩
  simp only [listMove, hread, ok_bind, hok₁]
  exact hok₂

lemma listMoveTail_realizes {k : List ℕ} (hR : Realizes h R) (ha : R.ring a = some (l ++ x :: m))
    (hk : (R.set a (l ++ m)).ring b = some k) :
    ∃ h', listMoveTail h x b = .ok h' ∧ Turns h h' ((R.set a (l ++ m)).set b (k ++ [x])) := by
  obtain ⟨hnext,hprev⟩ := hR.pointers ha
  obtain ⟨d,-,hread⟩ := read_eq h hnext hprev
  obtain ⟨h₁,hok₁,hR₁,hdata₁⟩ := rawListDel_realizes hR ha
  obtain ⟨h₂,hok₂,hR₂,hdata₂⟩ := listAddTail_realizes hR₁ hk (hR.mem_loose_set ha)
  refine ⟨h₂,?_,hR₂,hdata₂.trans hdata₁⟩
  simp only [listMoveTail, hread, ok_bind, hok₁]
  exact hok₂

/-- `list_empty`. -/
lemma listEmpty_eq (hR : Realizes h R) (ha : R.ring a = some l) : listEmpty h a = .ok (decide (l = [])) := by
  obtain ⟨hnext,hprev⟩ := hR.head_pointers ha
  have hd : (a :: l).Nodup := Rings.nodes_some ha ▸ hR.nodup a
  obtain ⟨d,-,hread⟩ := read_eq h hnext hprev
  rw [listEmpty, hread, ok_bind]
  cases l with
  | nil => simp
  | cons y l =>
    have hy : y ≠ a := fun heq => (List.nodup_cons.mp hd).1 (heq ▸ List.mem_cons_self)
    simp [hy]

lemma listSplice_realizes (hR : Realizes h R) (ha : R.ring a = some l) (hb : R.ring b = some m) (hne : a ≠ b) :
    ∃ h', listSplice h a b = .ok h' ∧ Turns h h' (if l = [] then R else (R.drop a).set b (l ++ m)) := by
  rw [listSplice, listEmpty_eq hR ha, ok_bind]
  by_cases hl : l = []
  · refine ⟨h,?_,by rwa [if_pos hl],rfl⟩
    simp [hl]
  · obtain ⟨h',hok,hR',hdata⟩ := rawListSplice_realizes hR ha hl hb hne
    refine ⟨h',?_,by rwa [if_neg hl],hdata⟩
    simpa [hl] using hok

lemma listSpliceInit_realizes (hR : Realizes h R) (ha : R.ring a = some l) (hb : R.ring b = some m) (hne : a ≠ b) :
    ∃ h', listSpliceInit h a b = .ok h' ∧
      Turns h h' (if l = [] then R else ((R.drop a).set b (l ++ m)).set a []) := by
  rw [listSpliceInit, listEmpty_eq hR ha, ok_bind]
  by_cases hl : l = []
  · refine ⟨h,?_,by rwa [if_pos hl],rfl⟩
    simp [hl]
  · obtain ⟨h₁,hok₁,hR₁,hdata₁⟩ := rawListSplice_realizes hR ha hl hb hne
    have hloose : a ∈ ((R.drop a).set b (l ++ m)).loose := by
      have hdisj := hR.apart a b hne
      rw [Rings.nodes_some ha, Rings.nodes_some hb] at hdisj
      refine ⟨.inl (.inr (Rings.nodes_some ha ▸ List.mem_cons_self)),fun hmem => ?_⟩
      rcases List.mem_cons.mp hmem with rfl | hmem
      · exact hne rfl
      rcases List.mem_append.mp hmem with hmem | hmem
      · exact (List.nodup_cons.mp (Rings.nodes_some ha ▸ hR.nodup a)).1 hmem
      · exact hdisj List.mem_cons_self (List.mem_cons_of_mem b hmem)
    obtain ⟨h₂,hok₂,hR₂,hdata₂⟩ := initListHead_realizes hR₁ hloose
    refine ⟨h₂,?_,by rwa [if_neg hl],hdata₂.trans hdata₁⟩
    simp only [hl, decide_false, Bool.false_eq_true, if_false, hok₁, ok_bind]
    exact hok₂

end Operations

section Lists

/-- What a program does with list heads: it allocates and releases them, and calls the functions of `list.h`. -/
inductive ListCall (α : Type)
  | malloc (a : ℕ) (node : Node α)
  | free (a : ℕ)
  | initListHead (a : ℕ)
  | listAdd (new head : ℕ)
  | listAddTail (new head : ℕ)
  | listDel (entry : ℕ)
  | listDelInit (entry : ℕ)
  | listMove (list head : ℕ)
  | listMoveTail (list head : ℕ)
  | listSplice (list head : ℕ)
  | listSpliceInit (list head : ℕ)
  deriving DecidableEq, Repr

def ListCall.exec {α : Type} (h : ListHeads α) : ListCall α → Outcome (ListHeads α)
  | malloc a node => .ok (h.set a node)
  | free a => h.release a
  | initListHead a => Xcpmd.initListHead h a
  | listAdd new head => Xcpmd.listAdd h new head
  | listAddTail new head => Xcpmd.listAddTail h new head
  | listDel entry => Xcpmd.listDel h entry
  | listDelInit entry => Xcpmd.listDelInit h entry
  | listMove list head => Xcpmd.listMove h list head
  | listMoveTail list head => Xcpmd.listMoveTail h list head
  | listSplice list head => Xcpmd.listSplice h list head
  | listSpliceInit list head => Xcpmd.listSpliceInit h list head

/-- What the call means for the lists, if they are as it needs them. Memory is new when it is allocated, and in no list
when it is released, or put into one. -/
inductive Calling {α : Type} : Rings → ListCall α → Rings → Prop
  | malloc {R : Rings} {a : ℕ} (node : Node α) (ha : ¬ R.Allocated a) :
      Calling R (.malloc a node) { R with loose := insert a R.loose }
  | free {R : Rings} {a : ℕ} (ha : a ∈ R.loose) : Calling R (.free a) { R with loose := R.loose \ {a} }
  | initListHead {R : Rings} {a : ℕ} (ha : a ∈ R.loose) : Calling R (.initListHead a) (R.set a [])
  | listAdd {R : Rings} {new head : ℕ} {l : List ℕ} (hnew : new ∈ R.loose) (hl : R.ring head = some l) :
      Calling R (.listAdd new head) (R.set head (new :: l))
  | listAddTail {R : Rings} {new head : ℕ} {l : List ℕ} (hnew : new ∈ R.loose) (hl : R.ring head = some l) :
      Calling R (.listAddTail new head) (R.set head (l ++ [new]))
  | listDel {R : Rings} {head entry : ℕ} {l m : List ℕ} (hl : R.ring head = some (l ++ entry :: m)) :
      Calling R (.listDel entry) (R.set head (l ++ m))
  | listDelInit {R : Rings} {head entry : ℕ} {l m : List ℕ} (hl : R.ring head = some (l ++ entry :: m)) :
      Calling R (.listDelInit entry) ((R.set head (l ++ m)).set entry [])
  | listMove {R : Rings} {head head' list : ℕ} {l m k : List ℕ} (hl : R.ring head = some (l ++ list :: m))
      (hk : (R.set head (l ++ m)).ring head' = some k) :
      Calling R (.listMove list head') ((R.set head (l ++ m)).set head' (list :: k))
  | listMoveTail {R : Rings} {head head' list : ℕ} {l m k : List ℕ} (hl : R.ring head = some (l ++ list :: m))
      (hk : (R.set head (l ++ m)).ring head' = some k) :
      Calling R (.listMoveTail list head') ((R.set head (l ++ m)).set head' (k ++ [list]))
  | listSplice {R : Rings} {list head : ℕ} {l m : List ℕ} (hl : R.ring list = some l) (hm : R.ring head = some m)
      (hne : list ≠ head) :
      Calling R (.listSplice list head) (if l = [] then R else (R.drop list).set head (l ++ m))
  | listSpliceInit {R : Rings} {list head : ℕ} {l m : List ℕ} (hl : R.ring list = some l) (hm : R.ring head = some m)
      (hne : list ≠ head) :
      Calling R (.listSpliceInit list head) (if l = [] then R else ((R.drop list).set head (l ++ m)).set list [])

variable {α : Type} {h : ListHeads α} {R R' : Rings} {a x : ℕ} {l m : List ℕ} {c : ListCall α}

/-- Each call does to the lists what it is meant to do. -/
lemma Calling.exec (hcall : Calling R c R') (hR : Realizes h R) : ∃ h', c.exec h = .ok h' ∧ Realizes h' R' := by
  cases hcall with
  | @malloc a node ha =>
    have hnone : h a = none := by
      rw [← Option.not_isSome_iff_eq_none]
      exact fun hsome => ha ((hR.allocated a).mp hsome)
    exact ⟨_,rfl,hR.allocate hnone _⟩
  | free ha => exact ⟨_,Heap.release_some ((hR.allocated _).mpr (.inl ha)),hR.release ha⟩
  | initListHead ha => exact (initListHead_realizes hR ha).imp fun _ => And.imp_right Turns.realizes
  | listAdd hnew hl => exact (listAdd_realizes hR hl hnew).imp fun _ => And.imp_right Turns.realizes
  | listAddTail hnew hl => exact (listAddTail_realizes hR hl hnew).imp fun _ => And.imp_right Turns.realizes
  | listDel hl => exact (listDel_realizes hR hl).imp fun _ => And.imp_right Turns.realizes
  | listDelInit hl => exact (listDelInit_realizes hR hl).imp fun _ => And.imp_right Turns.realizes
  | listMove hl hk => exact (listMove_realizes hR hl hk).imp fun _ => And.imp_right Turns.realizes
  | listMoveTail hl hk => exact (listMoveTail_realizes hR hl hk).imp fun _ => And.imp_right Turns.realizes
  | listSplice hl hm hne => exact (listSplice_realizes hR hl hm hne).imp fun _ => And.imp_right Turns.realizes
  | listSpliceInit hl hm hne => exact (listSpliceInit_realizes hR hl hm hne).imp fun _ => And.imp_right Turns.realizes

/-- A sequence of calls, each with the lists as it needs them. -/
inductive ListRun {α : Type} : Rings → List (ListCall α) → Rings → Prop
  | nil {R : Rings} : ListRun R [] R
  | cons {R R' R'' : Rings} {c : ListCall α} {cs : List (ListCall α)} (hcall : Calling R c R') (hrun : ListRun R' cs R'') :
      ListRun R (c :: cs) R''

lemma ListRun.perform {cs : List (ListCall α)} (hrun : ListRun R cs R') (hR : Realizes h R) :
    ∃ h', Machine.perform ListCall.exec h cs = .ok h' ∧ Realizes h' R' := by
  induction hrun generalizing h with
  | nil => exact ⟨h,rfl,hR⟩
  | cons hcall _ ih =>
    obtain ⟨h₁,hok₁,hR₁⟩ := hcall.exec hR
    obtain ⟨h₂,hok₂,hR₂⟩ := ih hR₁
    exact ⟨h₂,by rw [perform_cons,hok₁]; exact hok₂,hR₂⟩

lemma walk_next (hR : Realizes h R) {n : ℕ} (ha : R.ring a = some (m ++ l)) (hn : l.length < n) :
    walk Node.next h a n (some (l.headD a)) = .ok l := by
  induction l generalizing m n with
  | nil =>
    obtain ⟨n,rfl⟩ := Nat.exists_eq_succ_of_ne_zero (Nat.ne_of_gt hn)
    simp [walk]
  | cons y l ih =>
    obtain ⟨n,rfl⟩ := Nat.exists_eq_succ_of_ne_zero (Nat.ne_of_gt (Nat.zero_lt_of_lt hn))
    obtain ⟨hnext,hprev⟩ := hR.pointers ha
    have hd : (a :: (m ++ y :: l)).Nodup := Rings.nodes_some ha ▸ hR.nodup a
    have hy : y ≠ a := fun heq => (List.nodup_cons.mp hd).1 (by simp [heq])
    have hrest := ih (m := m ++ [y]) (n := n) (by simpa using ha) (by simpa using hn)
    obtain ⟨d,-,hread⟩ := read_eq h hnext hprev
    rw [List.headD_cons, walk, if_neg hy, hread, ok_bind, hrest]
    rfl

/-- A loop over a list visits its entries. -/
lemma listForEach_eq (hR : Realizes h R) (ha : R.ring a = some l) {n : ℕ} (hn : l.length < n) : listForEach h a n = .ok l := by
  obtain ⟨hnext,hprev⟩ := hR.head_pointers ha
  obtain ⟨d,-,hread⟩ := read_eq h hnext hprev
  rw [listForEach, hread, ok_bind]
  exact walk_next hR (m := []) ha hn

lemma walk_prev (hR : Realizes h R) {n : ℕ} (ha : R.ring a = some (l ++ m)) (hn : l.length < n) :
    walk Node.prev h a n (some (l.getLastD a)) = .ok l.reverse := by
  induction l using List.reverseRec generalizing m n with
  | nil =>
    obtain ⟨n,rfl⟩ := Nat.exists_eq_succ_of_ne_zero (Nat.ne_of_gt hn)
    simp [walk]
  | append_singleton l y ih =>
    obtain ⟨n,rfl⟩ := Nat.exists_eq_succ_of_ne_zero (Nat.ne_of_gt (Nat.zero_lt_of_lt hn))
    have ha' : R.ring a = some (l ++ y :: m) := by simpa using ha
    obtain ⟨hnext,hprev⟩ := hR.pointers ha'
    have hd : (a :: (l ++ y :: m)).Nodup := Rings.nodes_some ha' ▸ hR.nodup a
    have hy : y ≠ a := fun heq => (List.nodup_cons.mp hd).1 (by simp [heq])
    have hrest := ih (n := n) ha' (by simpa using hn)
    have hlast : (l ++ [y]).getLastD a = y := by simp
    obtain ⟨d,-,hread⟩ := read_eq h hnext hprev
    rw [hlast, walk, if_neg hy, hread, ok_bind, hrest]
    simp

/-- After any sequence of calls from empty memory, each with the lists as it needs them, the memory in use is that of
the lists and of the loose nodes. A loop over a list visits its entries in order, a loop backwards visits them in
reverse, and `list_empty` tells whether there are any. No node is twice in a list, in two lists, or in a list and
loose. -/
theorem listRun_lists {cs : List (ListCall α)} (hrun : ListRun ⟨fun _ => none,∅⟩ cs R) :
    ∃ h, Machine.perform ListCall.exec (fun _ => none) cs = .ok h ∧ (∀ x, (h x).isSome ↔ R.Allocated x) ∧
      ∀ a l, R.ring a = some l → listEmpty h a = .ok (decide (l = [])) ∧
        (∀ n, l.length < n → listForEach h a n = .ok l ∧ listForEachPrev h a n = .ok l.reverse) ∧
        (a :: l).Nodup ∧ (∀ x ∈ a :: l, x ∉ R.loose) ∧
        ∀ b m, a ≠ b → R.ring b = some m → (a :: l).Disjoint (b :: m) := by
  have hempty : Realizes (fun _ => none : ListHeads α) ⟨fun _ => none,∅⟩ :=
    ⟨fun _ _ h => (by cases h),fun _ => List.nodup_nil,fun _ _ _ _ h => (by cases h),fun _ _ h => (by cases h),
      fun _ => by simp [Rings.Allocated,Rings.nodes]⟩
  obtain ⟨h,hok,hR⟩ := hrun.perform hempty
  refine ⟨h,hok,hR.allocated,fun a l ha => ⟨listEmpty_eq hR ha,fun n hn => ?_,?_,?_,fun b m hne hb => ?_⟩⟩
  · obtain ⟨hnext,hprev⟩ := hR.head_pointers ha
    obtain ⟨d,-,hread⟩ := read_eq h hnext hprev
    rw [listForEach, listForEachPrev, hread, ok_bind, ok_bind]
    exact ⟨walk_next hR (m := []) ha hn,walk_prev hR (m := []) (by rwa [List.append_nil]) hn⟩
  · rw [← Rings.nodes_some ha]
    exact hR.nodup a
  · rw [← Rings.nodes_some ha]
    exact hR.loose a
  · rw [← Rings.nodes_some ha, ← Rings.nodes_some hb]
    exact hR.apart a b hne

/-- Two entries, the first of which is taken out. -/
theorem listRun_lists_entry : ∃ h, Machine.perform ListCall.exec (fun _ => none)
    [.malloc 0 ⟨none,none,()⟩,.initListHead 0,.malloc 1 ⟨none,none,()⟩,.listAddTail 1 0,.malloc 2 ⟨none,none,()⟩,.listAddTail 2 0,
      .listDel 1] = .ok h ∧ listForEach h 0 2 = .ok [2] := by
  let R₁ : Rings := ⟨fun _ => none,{0}⟩
  let R₂ : Rings := { R₁.set 0 [] with loose := insert 1 (R₁.set 0 []).loose }
  let R₃ : Rings := { R₂.set 0 [1] with loose := insert 2 (R₂.set 0 [1]).loose }
  have hempty : ∀ x, ¬ Rings.Allocated ⟨fun _ => none,∅⟩ x := by simp [Rings.Allocated,Rings.nodes]
  have hinsert : ∀ (R : Rings) (a x : ℕ), Rings.Allocated { R with loose := insert a R.loose } x ↔ x = a ∨ R.Allocated x :=
    fun R a x => or_assoc
  have hR₁ : ∀ x, R₁.Allocated x ↔ x = 0 := by simp [R₁,Rings.Allocated,Rings.nodes]
  have hset₁ : ∀ x, (R₁.set 0 []).Allocated x ↔ x = 0 := by
    intro x
    rw [Rings.allocated_set (by simp [R₁]), hR₁]
  have h₁ : Calling ⟨fun _ => none,∅⟩ (.malloc 0 ⟨none,none,()⟩) R₁ := by
    have := Calling.malloc ⟨none,none,()⟩ (hempty 0)
    simpa [R₁] using this
  have h₂ : Calling R₁ (ListCall.initListHead 0 : ListCall Unit) (R₁.set 0 []) := .initListHead (by simp [R₁])
  have h₃ : Calling (R₁.set 0 []) (.malloc 1 ⟨none,none,()⟩) R₂ := .malloc ⟨none,none,()⟩ (by simp [hset₁])
  have h₄ : Calling R₂ (ListCall.listAddTail 1 0 : ListCall Unit) (R₂.set 0 [1]) := .listAddTail (l := []) (by simp [R₂]) (by simp [R₂])
  have hset₂ : ∀ x, (R₂.set 0 [1]).Allocated x ↔ x = 1 ∨ x = 0 := by
    intro x
    have hmem : ∀ y ∈ [0,1], y ∈ R₂.loose ∨ y ∈ R₂.nodes 0 := by simp [R₂,Rings.nodes]
    rw [Rings.allocated_set hmem, hinsert, hset₁]
  have h₅ : Calling (R₂.set 0 [1]) (.malloc 2 ⟨none,none,()⟩) R₃ := .malloc ⟨none,none,()⟩ (by simp [hset₂])
  have h₆ : Calling R₃ (ListCall.listAddTail 2 0 : ListCall Unit) (R₃.set 0 [1,2]) := .listAddTail (l := [1]) (by simp [R₃]) (by simp [R₃])
  have h₇ : Calling (R₃.set 0 [1,2]) (ListCall.listDel 1 : ListCall Unit) ((R₃.set 0 [1,2]).set 0 [2]) := .listDel (l := []) (m := [2]) (by simp)
  obtain ⟨h,hok,-,hlists⟩ := listRun_lists
    (.cons h₁ (.cons h₂ (.cons h₃ (.cons h₄ (.cons h₅ (.cons h₆ (.cons h₇ .nil)))))))
  exact ⟨h,hok,((hlists 0 [2] (by simp)).2.1 2 (by decide)).1⟩

end Lists

section Safe
variable {α σ : Type} (heads : σ → ListHeads α) (body : ℕ → σ → Outcome σ) (head : ℕ)

/-- The loop of `list_for_each_safe`: where to go on is read before the body. -/
def safeLoop : ℕ → σ → Option ℕ → Option ℕ → Outcome σ
  | 0, _, _, _ => .error .loop
  | _ + 1, _, none, _ => .error .null
  | k + 1, s, some pos, n =>
    if pos = head then .ok s
    else do
      let s ← body pos s
      let node ← (heads s).read n
      safeLoop k s n node.next

/-- `list_for_each_safe`. -/
def listForEachSafe (k : ℕ) (s : σ) : Outcome σ := do
  let node ← (heads s).read (some head)
  let next ← (heads s).read node.next
  safeLoop heads body head k s node.next next.next

variable {heads body head} {inv : List ℕ → σ → Prop} {l : List ℕ} {s : σ}

lemma safeLoop_rule
    (hlists : ∀ l s, inv l s → ∃ R p, Realizes (heads s) R ∧ R.ring head = some (p ++ l))
    (hbody : ∀ x l s, inv (x :: l) s → ∃ s', body x s = .ok s' ∧ inv l s') (h : inv l s) {k : ℕ} (hk : l.length < k) :
    ∃ s', safeLoop heads body head k s (some (l.headD head)) (some (l.tail.headD head)) = .ok s' ∧ inv [] s' := by
  induction l generalizing s k with
  | nil =>
    obtain ⟨k,rfl⟩ := Nat.exists_eq_succ_of_ne_zero (Nat.ne_of_gt hk)
    exact ⟨s,by simp [safeLoop],h⟩
  | cons x l ih =>
    obtain ⟨k,rfl⟩ := Nat.exists_eq_succ_of_ne_zero (Nat.ne_of_gt (Nat.zero_lt_of_lt hk))
    obtain ⟨R,p,hR,hring⟩ := hlists _ _ h
    have hx : x ≠ head := by
      rintro rfl
      have hd : (x :: (p ++ x :: l)).Nodup := Rings.nodes_some hring ▸ hR.nodup x
      exact (List.nodup_cons.mp hd).1 (by simp)
    obtain ⟨s₁,hok₁,hinv₁⟩ := hbody x l s h
    obtain ⟨R₁,p₁,hR₁,hring₁⟩ := hlists _ _ hinv₁
    obtain ⟨s₂,hok₂,hinv₂⟩ := ih hinv₁ (k := k) (by simpa using hk)
    refine ⟨s₂,?_,hinv₂⟩
    have hnext : ∃ node, (heads s₁).read (some (l.headD head)) = .ok node ∧
        (l = [] ∨ node.next = some (l.tail.headD head)) := by
      cases l with
      | nil =>
        obtain ⟨hnext,hprev⟩ := hR₁.head_pointers hring₁
        obtain ⟨d,-,hread⟩ := read_eq _ hnext hprev
        exact ⟨_,hread,.inl rfl⟩
      | cons y l =>
        obtain ⟨hnext,hprev⟩ := hR₁.pointers hring₁
        obtain ⟨d,-,hread⟩ := read_eq _ hnext hprev
        exact ⟨_,hread,.inr rfl⟩
    obtain ⟨node,hread,hnode⟩ := hnext
    rw [List.headD_cons, List.tail_cons, safeLoop, if_neg hx, hok₁, ok_bind, hread, ok_bind]
    rcases hnode with rfl | hnode
    · obtain ⟨k,rfl⟩ := Nat.exists_eq_succ_of_ne_zero (Nat.ne_of_gt (show 0 < k by simpa using hk))
      simpa [safeLoop] using hok₂
    · rwa [hnode]

/-- A loop visits all entries if its body, at any of them, leaves those that are still to be visited in the list. -/
lemma listForEachSafe_rule (hstart : ∃ R, Realizes (heads s) R ∧ R.ring head = some l)
    (hlists : ∀ l s, inv l s → ∃ R p, Realizes (heads s) R ∧ R.ring head = some (p ++ l))
    (hbody : ∀ x l s, inv (x :: l) s → ∃ s', body x s = .ok s' ∧ inv l s') (h : inv l s) {k : ℕ} (hk : l.length < k) :
    ∃ s', listForEachSafe heads body head k s = .ok s' ∧ inv [] s' := by
  obtain ⟨R,hR,hring⟩ := hstart
  obtain ⟨s',hok,hinv⟩ := safeLoop_rule hlists hbody h hk
  refine ⟨s',?_,hinv⟩
  obtain ⟨hnext,hprev⟩ := hR.head_pointers hring
  obtain ⟨d,-,hread⟩ := read_eq _ hnext hprev
  cases l with
  | nil =>
    obtain ⟨k,rfl⟩ := Nat.exists_eq_succ_of_ne_zero (Nat.ne_of_gt hk)
    rw [List.headD_nil] at hread
    rw [listForEachSafe, hread, ok_bind, hread, ok_bind]
    exact hok
  | cons y l =>
    obtain ⟨hnext',hprev'⟩ := hR.pointers (l := []) hring
    obtain ⟨d',-,hread'⟩ := read_eq _ hnext' hprev'
    rw [listForEachSafe, hread, ok_bind, List.headD_cons, hread', ok_bind]
    exact hok

end Safe

end Xctools.Xcpmd
