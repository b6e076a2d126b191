import Mathlib.Data.List.Nodup
import Mathlib.Logic.Function.Basic
import Xctools.Machine.Outcome

/-! Lists whose nodes point back to the link that leads to them, which is the head of the list or the `next` of
another node. A node can be taken out without looking for the one before it. -/
namespace Xctools.Machine

/-- What a pointer to a link points to. -/
inductive Link
  | head
  | next (a : ℕ)
  deriving DecidableEq, Repr

/-- A node. -/
structure Cell (α : Type*) where
  next : Option ℕ := none
  pprev : Option Link := none
  data : α
  deriving DecidableEq, Repr

/-- The head of a list, and the nodes that are allocated. -/
structure Headed (α : Type*) where
  first : Option ℕ := none
  cells : ℕ → Option (Cell α) := fun _ => none

namespace Headed
variable {α : Type*} (h : Headed α)

def read (a : ℕ) : Outcome (Cell α) :=
  match h.cells a with
  | none => .error .wild
  | some c => .ok c

def put (a : ℕ) (c : Option (Cell α)) : Headed α := { h with cells := Function.update h.cells a c }

def modify (a : ℕ) (f : Cell α → Cell α) : Outcome (Headed α) := do return h.put a (some (f (← h.read a)))

/-- The node a pointer leads to, if it is not NULL, is made to point back to another link. -/
def setBack (p : Option ℕ) (link : Option Link) : Outcome (Headed α) :=
  match p with
  | some a => h.modify a fun c => { c with pprev := link }
  | none => .ok h

/-- `free`. -/
def release (a : ℕ) : Outcome (Headed α) := do
  let _ ← h.read a
  return h.put a none

/-- What stands in a link. -/
def load : Link → Option ℕ
  | .head => h.first
  | .next a => (h.cells a).bind Cell.next

/-- An assignment through a pointer to a link. -/
def store : Option Link → Option ℕ → Outcome (Headed α)
  | none, _ => .error .null
  | some .head, p => .ok { h with first := p }
  | some (.next a), p => h.modify a fun c => { c with next := p }

end Headed

section Chain
variable {α : Type*} {cells cells' : ℕ → Option (Cell α)} {link : Link} {p : Option ℕ} {a : ℕ}
  {c : Cell α} {d : α} {l l₁ l₂ : List (ℕ × α)}

/-- From a link that holds `p`, over the nodes of a list with their data, each pointing back to the link that led to
it, to the end. -/
def Chain (cells : ℕ → Option (Cell α)) : Link → Option ℕ → List (ℕ × α) → Prop
  | _, p, [] => p = none
  | link, p, (a,d) :: l =>
    p = some a ∧ ∃ c, cells a = some c ∧ c.pprev = some link ∧ c.data = d ∧ Chain cells (.next a) c.next l

/-- The nodes of a headed list. -/
def Headed.Lists (h : Headed α) (l : List (ℕ × α)) : Prop := Chain h.cells .head h.first l ∧ (l.map Prod.fst).Nodup

/-- Only the nodes of the list matter. -/
lemma Chain.congr (h : Chain cells link p l) (hcells : ∀ x ∈ l, cells' x.1 = cells x.1) : Chain cells' link p l := by
  induction l generalizing link p with
  | nil => exact h
  | cons x l ih =>
    obtain ⟨a,d⟩ := x
    obtain ⟨hp,c,hc,hback,hdata,hrest⟩ := h
    obtain ⟨hx,hl⟩ := List.forall_mem_cons.mp hcells
    exact ⟨hp,c,hx.trans hc,hback,hdata,ih hrest hl⟩

/-- All nodes are there. -/
lemma Chain.exists_cell (h : Chain cells link p l) (ha : (a,d) ∈ l) : ∃ c, cells a = some c ∧ c.data = d := by
  induction l generalizing link p with
  | nil => cases ha
  | cons x l ih =>
    obtain ⟨b,e⟩ := x
    obtain ⟨-,c,hc,-,hdata,hrest⟩ := h
    rcases List.mem_cons.mp ha with heq | ha
    · cases heq
      exact ⟨c,hc,hdata⟩
    · exact ih hrest ha

/-- A list begins with the node in the link. -/
lemma Chain.front (h : Chain cells link p l) : p = (l.map Prod.fst).head? := by
  cases l with
  | nil => exact h
  | cons x l => exact h.1

/-- The link a node points back to: the first one, or that of the node before. -/
lemma Chain.pprev_eq (h : Chain cells link p (l₁ ++ (a,d) :: l₂)) (hc : cells a = some c) :
    c.pprev = some ((l₁.getLast?.map fun x => Link.next x.1).getD link) ∧ c.next = (l₂.map Prod.fst).head? := by
  induction l₁ generalizing link p with
  | nil =>
    obtain ⟨-,c',hc',hback,-,hrest⟩ := h
    obtain rfl := Option.some.inj (hc'.symm.trans hc)
    exact ⟨hback,hrest.front⟩
  | cons x l₁ ih =>
    obtain ⟨-,_,-,-,-,hrest⟩ := h
    obtain ⟨hback,hnext⟩ := ih hrest
    refine ⟨?_,hnext⟩
    rw [hback, List.getLast?_cons]
    cases l₁.getLast? <;> rfl

/-- The cells when the first node of a list points back to another link. -/
def relinked (cells : ℕ → Option (Cell α)) (p : Option ℕ) (link : Link) : ℕ → Option (Cell α) := fun b =>
  if p = some b then (cells b).map fun x => { x with pprev := some link } else cells b

lemma Chain.relinked (h : Chain cells link p l) (hnodup : (l.map Prod.fst).Nodup) (link' : Link) :
    Chain (relinked cells p link') link' p l := by
  cases l with
  | nil => exact h
  | cons x l =>
    obtain ⟨a,d⟩ := x
    obtain ⟨rfl,c,hc,-,hdata,hrest⟩ := h
    refine ⟨rfl,{ c with pprev := some link' },?_,rfl,hdata,hrest.congr fun y hy => ?_⟩
    · simp [Machine.relinked, hc]
    · have hmem : y.1 ∈ l.map Prod.fst := List.mem_map_of_mem hy
      refine if_neg fun heq => (List.nodup_cons.mp hnodup).1 ?_
      rwa [Option.some.inj heq]

lemma relinked_update (hp : p ≠ some a) (c : Option (Cell α)) (link : Link) :
    Machine.relinked (Function.update cells a c) p link = Function.update (Machine.relinked cells p link) a c := by
  funext b
  by_cases hb : b = a
  · rw [hb, Function.update_self, Machine.relinked, if_neg hp, Function.update_self]
  · rw [Function.update_of_ne hb, Machine.relinked, Function.update_of_ne hb]
    rfl

lemma isSome_relinked (b : ℕ) : (Machine.relinked cells p link b).isSome = (cells b).isSome := by
  rw [Machine.relinked]
  split_ifs <;> simp

/-- The cells when a node is passed by in both directions. -/
def unlinked (cells : ℕ → Option (Cell α)) (c : Cell α) : ℕ → Option (Cell α) := fun b =>
  (cells b).map fun x =>
    { x with
      next := if c.pprev = some (.next b) then c.next else x.next
      pprev := if c.next = some b then c.pprev else x.pprev }

lemma isSome_unlinked (b : ℕ) : (unlinked cells c b).isSome = (cells b).isSome := by
  rw [unlinked, Option.isSome_map]

/-- The nodes around it are a list then. -/
lemma Chain.unlinked (h : Chain cells link p (l₁ ++ (a,d) :: l₂)) (hc : cells a = some c)
    (hnodup : ((l₁ ++ (a,d) :: l₂).map Prod.fst).Nodup)
    (hlink : ∀ x ∈ l₁ ++ (a,d) :: l₂, link ≠ .next x.1) :
    Chain (unlinked cells c) link (if l₁ = [] then c.next else p) (l₁ ++ l₂) := by
  induction l₁ generalizing link p with
  | nil =>
    obtain ⟨-,c',hc',hback,-,hrest⟩ := h
    obtain rfl := Option.some.inj (hc'.symm.trans hc)
    rw [if_pos rfl, List.nil_append]
    refine (hrest.relinked (List.nodup_cons.mp hnodup).2 link).congr fun x hx => ?_
    have hother : ¬ link = .next x.1 := hlink x (List.mem_cons_of_mem _ hx)
    simp only [Machine.unlinked, Machine.relinked, hback, Option.some.injEq, hother, if_false]
    cases cells x.1 <;> split_ifs <;> rfl
  | cons x l₁ ih =>
    obtain ⟨b,e⟩ := x
    obtain ⟨hp,y,hy,hyback,hdata,hrest⟩ := h
    obtain ⟨hb,hnodup'⟩ := List.nodup_cons.mp hnodup
    have hother : ∀ x ∈ l₁ ++ (a,d) :: l₂, x.1 ≠ b := by
      intro x hx heq
      have hmem : x.1 ∈ (l₁ ++ (a,d) :: l₂).map Prod.fst := List.mem_map_of_mem hx
      rw [heq] at hmem
      exact hb hmem
    obtain ⟨hback,hnext⟩ := hrest.pprev_eq hc
    have hskips : c.pprev = some (.next b) ↔ l₁ = [] := by
      rw [hback]
      cases hlast : l₁.getLast? with
      | none => exact iff_of_true rfl (List.getLast?_eq_none_iff.mp hlast)
      | some z =>
        have hz : z ∈ l₁ := List.mem_of_getLast? hlast
        refine iff_of_false (fun heq => hother z (List.mem_append_left _ hz) ?_) (List.ne_nil_of_mem hz)
        exact Link.next.inj (Option.some.inj heq)
    have hbehind : ¬ c.next = some b := by
      rw [hnext]
      intro heq
      obtain ⟨z,hz,hzb⟩ := List.mem_map.mp (List.mem_of_mem_head? heq)
      exact hother z (List.mem_append_right _ (List.mem_cons_of_mem _ hz)) hzb
    rw [if_neg (List.cons_ne_nil _ _), List.cons_append]
    refine ⟨hp,{ y with next := if l₁ = [] then c.next else y.next },?_,hyback,hdata,?_⟩
    · simp only [Machine.unlinked, hy, Option.map_some, hskips, if_neg hbehind]
    · exact ih hrest hnodup' fun x hx heq => hother x hx (Link.next.inj heq).symm

end Chain

namespace Headed
variable {α : Type*} {h : Headed α} {a : ℕ} {c : Cell α} {l : List (ℕ × α)}

lemma read_some (ha : h.cells a = some c) : h.read a = .ok c := by rw [read, ha]

lemma modify_some (ha : h.cells a = some c) (f : Cell α → Cell α) : h.modify a f = .ok (h.put a (some (f c))) := by
  rw [modify, read_some ha]
  rfl

lemma setBack_eq {p : Option ℕ} (hp : ∀ a ∈ p, (h.cells a).isSome) (link : Link) :
    h.setBack p (some link) = .ok { h with cells := relinked h.cells p link } := by
  cases p with
  | none => rfl
  | some a =>
    obtain ⟨c,hc⟩ := Option.isSome_iff_exists.mp (hp a rfl)
    rw [setBack, modify_some hc, put]
    congr 2
    funext b
    by_cases hb : b = a
    · rw [hb, Function.update_self, relinked, if_pos rfl, hc]
      rfl
    · rw [Function.update_of_ne hb, relinked, if_neg fun heq => hb (Option.some.inj heq).symm]

lemma release_some (ha : h.cells a = some c) : h.release a = .ok (h.put a none) := by
  rw [release, read_some ha]
  rfl

@[simp] lemma cells_put_self (h : Headed α) (a : ℕ) (c : Option (Cell α)) : (h.put a c).cells a = c :=
  Function.update_self ..

lemma cells_put_of_ne {b : ℕ} (hb : b ≠ a) (c : Option (Cell α)) : (h.put a c).cells b = h.cells b :=
  Function.update_of_ne hb ..

@[simp] lemma put_put (h : Headed α) (a : ℕ) (c c' : Option (Cell α)) : (h.put a c).put a c' = h.put a c' := by
  simp [put]

/-- When the node behind it points back to its own link, a node is passed by once that link holds its `next`. -/
lemma store_relinked {link : Link} (hback : c.pprev = some link) (hlink : ∀ b, link = .next b → (h.cells b).isSome) :
    Headed.store { h with cells := relinked h.cells c.next link } (some link) c.next =
      .ok ⟨if link = .head then c.next else h.first,unlinked h.cells c⟩ := by
  cases link with
  | head =>
    rw [store, if_pos rfl]
    congr 2
    funext b
    simp only [relinked, unlinked, hback, Option.some.injEq, reduceCtorEq, if_false]
    cases h.cells b <;> split_ifs <;> rfl
  | next a =>
    obtain ⟨y,hy⟩ := Option.isSome_iff_exists.mp (hlink a rfl)
    have hrelinked : (relinked h.cells c.next (.next a) a) =
        some { y with pprev := if c.next = some a then some (.next a) else y.pprev } := by
      rw [relinked, hy]
      split_ifs <;> rfl
    have hnothead : ¬ Link.next a = Link.head := nofun
    rw [store, modify_some hrelinked, put, if_neg hnothead]
    congr 2
    funext b
    by_cases hb : b = a
    · rw [hb, Function.update_self, unlinked, hy, hback]
      simp
    · have hother : ¬ Link.next a = .next b := fun heq => hb (Link.next.inj heq).symm
      rw [Function.update_of_ne hb]
      simp only [relinked, unlinked, hback, Option.some.injEq, hother, if_false]
      cases h.cells b <;> split_ifs <;> rfl

/-- Memory that is given back is as it was before. -/
lemma put_none_of_fresh (ha : h.cells a = none) : h.put a none = h := by
  rw [put, ← ha, Function.update_eq_self]

/-- A node is once in a list. -/
lemma Lists.parts {d : α} {l₁ l₂ : List (ℕ × α)} (hl : h.Lists (l₁ ++ (a,d) :: l₂)) :
    a ∉ (l₁ ++ l₂).map Prod.fst ∧ ((l₁ ++ l₂).map Prod.fst).Nodup := by
  have hnodup := hl.2
  rw [List.map_append, List.map_cons, List.nodup_middle, ← List.map_append] at hnodup
  exact List.nodup_cons.mp hnodup

/-- It points back to the head of the list, or to a node in front of it, and on to one behind it. -/
lemma Lists.exists_back {d : α} {l₁ l₂ : List (ℕ × α)} (hl : h.Lists (l₁ ++ (a,d) :: l₂))
    (hc : h.cells a = some c) :
    (∃ link, c.pprev = some link ∧ (link = .head ↔ l₁ = []) ∧
      ∀ b, link = .next b → b ∈ l₁.map Prod.fst) ∧ ∀ b ∈ c.next, b ∈ l₂.map Prod.fst := by
  obtain ⟨hback,hnext⟩ := hl.1.pprev_eq hc
  refine ⟨⟨_,hback,?_⟩,fun b hb => List.mem_of_mem_head? (hnext ▸ hb)⟩
  cases hlast : l₁.getLast? with
  | none => exact ⟨iff_of_true rfl (List.getLast?_eq_none_iff.mp hlast),fun b hb => Link.noConfusion hb⟩
  | some z =>
    have hz : z ∈ l₁ := List.mem_of_getLast? hlast
    refine ⟨iff_of_false (fun heq => Link.noConfusion heq) (List.ne_nil_of_mem hz),fun b hb => ?_⟩
    rw [← Link.next.inj hb]
    exact List.mem_map_of_mem hz

/-- Each node of a list points back to the link that leads to it. -/
lemma exists_link {link : Link} {p : Option ℕ} (hchain : Chain h.cells link p l) (hlink : h.load link = p)
    {x : ℕ × α} (hx : x ∈ l) :
    ∃ c, h.cells x.1 = some c ∧ c.data = x.2 ∧ ∃ back, c.pprev = some back ∧ h.load back = some x.1 := by
  induction l generalizing link p with
  | nil => cases hx
  | cons y l ih =>
    obtain ⟨a,d⟩ := y
    obtain ⟨rfl,c,hc,hback,hdata,hrest⟩ := hchain
    rcases List.mem_cons.mp hx with rfl | hx
    · exact ⟨c,hc,hdata,link,hback,hlink⟩
    · exact ih hrest (by rw [load, hc]; rfl) hx

end Headed

end Xctools.Machine
