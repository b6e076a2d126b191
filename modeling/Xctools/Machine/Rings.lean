import Mathlib.Data.List.Pairwise
import Mathlib.Data.Set.Insert
import Xctools.Machine.Keyed
import Xctools.Machine.LinkRing

/-! Several rings in one heap. Each is named by one of its nodes and has the others in order; nodes that are in none
have pointers that mean nothing. -/
namespace Xctools.Machine

namespace Heap
variable {α : Type*} {h h' : Heap α} {a b c n x : ℕ} {l m p q : List ℕ}

lemma mem_cons_of_mem_concat (hx : x ∈ l ++ [b]) : x ∈ b :: l := by
  rcases List.mem_append.mp hx with hx | hx
  · exact List.mem_cons_of_mem _ hx
  · exact List.mem_cons.mpr (.inl (List.mem_singleton.mp hx))

/-- A path whose last node is made to lead to another end. -/
lemma Path.redirect (hp : h.Path a l b) (hd : (a :: l).Nodup) (hnext : h'.nextOf (l.getLastD a) = some c)
    (hprev : h'.prevOf c = some (l.getLastD a))
    (hn : ∀ x ∈ a :: l, x ≠ l.getLastD a → h'.nextOf x = h.nextOf x) (hv : ∀ x ∈ l, h'.prevOf x = h.prevOf x) :
    h'.Path a l c := by
  induction l generalizing a with
  | nil => exact ⟨hnext,hprev⟩
  | cons y l ih =>
    rw [List.getLastD_cons] at hnext hprev
    simp only [List.getLastD_cons] at hn
    obtain ⟨⟨hay,hya⟩,hp⟩ := hp
    obtain ⟨ha,hd⟩ := List.nodup_cons.mp hd
    have hne : a ≠ l.getLastD y := fun heq => ha (heq ▸ List.getLastD_mem_cons)
    refine ⟨⟨(hn a (by simp) hne).trans hay,(hv y (by simp)).trans hya⟩,ih hp hd hnext hprev ?_ ?_⟩
    · exact fun x hx => hn x (List.mem_cons_of_mem _ hx)
    · exact fun x hx => hv x (List.mem_cons_of_mem _ hx)

/-- The nodes of a path are allocated. -/
lemma Path.isSome (hp : h.Path a l b) (hx : x ∈ a :: l) : (h x).isSome := by
  induction l generalizing a with
  | nil =>
    obtain rfl := List.mem_singleton.mp hx
    exact isSome_of_nextOf hp.1
  | cons y l ih =>
    rcases List.mem_cons.mp hx with rfl | hx
    · exact isSome_of_nextOf hp.1.1
    · exact ih hp.2 hx

/-- A node is put between two others. -/
lemma Path.insertBetween (hp : h.Path a (l ++ m) a) (hd : (a :: (l ++ m)).Nodup) (hn : n ∉ a :: (l ++ m))
    (hpred : h'.nextOf (l.getLastD a) = some n) (hprev : h'.prevOf n = some (l.getLastD a))
    (hnext : h'.nextOf n = some (m.headD a)) (hsucc : h'.prevOf (m.headD a) = some n)
    (hframe : ∀ x, x ≠ n → (x ≠ l.getLastD a → h'.nextOf x = h.nextOf x) ∧
      (x ≠ m.headD a → h'.prevOf x = h.prevOf x)) : h'.Path a (l ++ n :: m) a := by
  cases m with
  | nil =>
    rw [List.append_nil] at hp hd hn
    exact hp.insert hd (List.nodup_cons.mp hd).1 hn hpred hprev hnext hsucc hframe
  | cons y m =>
    rw [List.headD_cons] at hnext hsucc hframe
    obtain ⟨hp,hq⟩ := path_append.mp hp
    have hd' : (a :: l ++ y :: m).Nodup := hd
    have hn' : n ∉ a :: l ++ y :: m := hn
    obtain ⟨hdl,hdm,hdisj⟩ := List.nodup_append'.mp hd'
    have hyl : y ∉ a :: l := fun hy => hdisj hy List.mem_cons_self
    have hfirst : h'.Path a (l ++ [n]) y :=
      hp.insert hdl (fun hy => hyl (List.mem_cons_of_mem _ hy)) (fun hx => hn' (List.mem_append_left _ hx)) hpred
        hprev hnext hsucc hframe
    have hlast : l.getLastD a ∈ a :: l := List.getLastD_mem_cons
    have hrest : h'.Path y m a := by
      refine hq.frame (fun x hx => (hframe x ?_).1 ?_) fun x hx => (hframe x ?_).2 ?_
      · exact fun heq => hn' (List.mem_append_right _ (heq ▸ hx))
      · exact fun heq => hdisj hlast (heq ▸ hx)
      · rintro rfl
        rcases List.mem_append.mp hx with hx | hx
        · exact hn' (List.mem_append_right _ (List.mem_cons_of_mem _ hx))
        · exact hn' (List.mem_append_left _ (by simp [List.mem_singleton.mp hx]))
      · rintro rfl
        rcases List.mem_append.mp hx with hx | hx
        · exact (List.nodup_cons.mp hdm).1 hx
        · exact hyl (by simp [List.mem_singleton.mp hx])
    have heq : l ++ n :: y :: m = (l ++ [n]) ++ y :: m := by simp
    rw [heq]
    exact path_append.mpr ⟨hfirst,hrest⟩

/-- The nodes of one ring are put in front of those of another. -/
lemma Path.splice (hp : h.Path a l a) (hl : l ≠ []) (hq : h.Path b m b) (hd : (a :: l).Nodup) (hdm : (b :: m).Nodup)
    (hdisj : (a :: l).Disjoint (b :: m))
    (hhead : h'.nextOf b = some (l.headD a)) (hfirst : h'.prevOf (l.headD a) = some b)
    (hlast : h'.nextOf (l.getLastD a) = some (m.headD b)) (hat : h'.prevOf (m.headD b) = some (l.getLastD a))
    (hframe : ∀ x, (x ≠ b → x ≠ l.getLastD a → h'.nextOf x = h.nextOf x) ∧
      (x ≠ l.headD a → x ≠ m.headD b → h'.prevOf x = h.prevOf x)) : h'.Path b (l ++ m) b := by
  obtain ⟨y,l,rfl⟩ := List.exists_cons_of_ne_nil hl
  rw [List.headD_cons] at hhead hfirst hframe
  rw [List.getLastD_cons] at hlast hat hframe
  obtain ⟨-,hp⟩ := hp
  have hdl : (y :: l).Nodup := (List.nodup_cons.mp hd).2
  have hnotb : ∀ x ∈ y :: l, x ∉ b :: m := fun x hx => hdisj (List.mem_cons_of_mem _ hx)
  have hm : m.headD b ∈ b :: m := by cases m <;> simp
  have hmiddle : h'.Path y l (m.headD b) := by
    refine hp.redirect hdl hlast hat (fun x hx hne => (hframe x).1 ?_ hne) fun x hx => (hframe x).2 ?_ ?_
    · exact fun heq => hnotb x hx (by simp [heq])
    · exact fun heq => (List.nodup_cons.mp hdl).1 (heq ▸ hx)
    · exact fun heq => hnotb x (List.mem_cons_of_mem _ hx) (heq ▸ hm)
  cases m with
  | nil =>
    rw [List.append_nil]
    exact ⟨⟨hhead,hfirst⟩,hmiddle⟩
  | cons z m =>
    refine path_append.mpr ⟨⟨⟨hhead,hfirst⟩,hmiddle⟩,?_⟩
    obtain ⟨-,hq⟩ := hq
    obtain ⟨hb,hdz⟩ := List.nodup_cons.mp hdm
    have hend : l.getLastD y ∈ y :: l := List.getLastD_mem_cons
    refine hq.frame (fun x hx => (hframe x).1 ?_ ?_) fun x hx => (hframe x).2 ?_ ?_
    · exact fun heq => hb (heq ▸ hx)
    · exact fun heq => hnotb _ hend (List.mem_cons_of_mem _ (heq ▸ hx))
    · rintro rfl
      rcases List.mem_cons.mp (mem_cons_of_mem_concat hx) with rfl | hx
      · exact hnotb x List.mem_cons_self List.mem_cons_self
      · exact hnotb x List.mem_cons_self (List.mem_cons_of_mem _ (List.mem_cons_of_mem _ hx))
    · rintro rfl
      rcases List.mem_append.mp hx with hx | hx
      · exact (List.nodup_cons.mp hdz).1 hx
      · exact hb (by simp [← List.mem_singleton.mp hx])

end Heap

/-- The rings by the nodes that name them, and the nodes in none. -/
structure Rings where
  ring : ℕ → Option (List ℕ)
  loose : Set ℕ

namespace Rings
variable (R : Rings) (a : ℕ) (l : List ℕ)

/-- The nodes of a ring. -/
def nodes : List ℕ := ((R.ring a).map (a :: ·)).getD []

/-- A ring is dissolved. -/
def drop : Rings := ⟨Function.update R.ring a none,R.loose ∪ {x | x ∈ R.nodes a}⟩

/-- A ring is made of loose nodes, or of others in its place. -/
def set : Rings := ⟨Function.update R.ring a (some l),(R.loose ∪ {x | x ∈ R.nodes a}) \ {x | x ∈ a :: l}⟩

/-- The node is in a ring, or loose. -/
def Allocated (x : ℕ) : Prop := x ∈ R.loose ∨ ∃ a, x ∈ R.nodes a

/-- Some nodes are taken out of all rings, and the rings that they name are dissolved. -/
def without (D : List ℕ) : Rings where
  ring a := if a ∈ D then none else (R.ring a).map fun l => l.filter (· ∉ D)
  loose := R.loose \ {x | x ∈ D}

/-- The rings as a table has them. -/
def ofTable (t : List (ℕ × List ℕ)) (loose : List ℕ) : Rings := ⟨fun a => (lookupKey Prod.fst a t).map Prod.snd,{x | x ∈ loose}⟩

variable {R a l} {b x : ℕ} {m D E : List ℕ}

lemma nodes_some (h : R.ring a = some l) : R.nodes a = a :: l := by rw [nodes,h]; rfl

lemma nodes_none (h : R.ring a = none) : R.nodes a = [] := by rw [nodes,h]; rfl

lemma ring_of_mem_nodes (h : x ∈ R.nodes a) : ∃ l, R.ring a = some l ∧ x ∈ a :: l := by
  cases hring : R.ring a with
  | none => simp [nodes_none hring] at h
  | some l => exact ⟨l,rfl,nodes_some hring ▸ h⟩

@[simp] lemma ring_set : (R.set a l).ring a = some l := Function.update_self ..

lemma ring_set_of_ne (h : b ≠ a) : (R.set a l).ring b = R.ring b := Function.update_of_ne h ..

@[simp] lemma ring_drop : (R.drop a).ring a = none := Function.update_self ..

lemma ring_drop_of_ne (h : b ≠ a) : (R.drop a).ring b = R.ring b := Function.update_of_ne h ..

@[simp] lemma nodes_set : (R.set a l).nodes a = a :: l := nodes_some ring_set

lemma nodes_set_of_ne (h : b ≠ a) : (R.set a l).nodes b = R.nodes b := by rw [nodes,ring_set_of_ne h]; rfl

@[simp] lemma nodes_drop : (R.drop a).nodes a = [] := nodes_none ring_drop

lemma nodes_drop_of_ne (h : b ≠ a) : (R.drop a).nodes b = R.nodes b := by rw [nodes,ring_drop_of_ne h]; rfl

/-- What a ring is made of was there before. -/
lemma allocated_set (hl : ∀ y ∈ a :: l, y ∈ R.loose ∨ y ∈ R.nodes a) : (R.set a l).Allocated x ↔ R.Allocated x := by
  constructor
  · rintro (⟨hmem | hmem,-⟩ | ⟨b,hb⟩)
    · exact .inl hmem
    · exact .inr ⟨a,hmem⟩
    · by_cases hba : b = a
      · rw [hba, nodes_set] at hb
        exact (hl x hb).imp_right fun hmem => ⟨a,hmem⟩
      · exact .inr ⟨b,by rwa [nodes_set_of_ne hba] at hb⟩
  · intro h
    by_cases hx : x ∈ a :: l
    · exact .inr ⟨a,by rwa [nodes_set]⟩
    rcases h with hmem | ⟨b,hb⟩
    · exact .inl ⟨.inl hmem,hx⟩
    · by_cases hba : b = a
      · exact .inl ⟨.inr (hba ▸ hb),hx⟩
      · exact .inr ⟨b,by rwa [nodes_set_of_ne hba]⟩

/-- A ring that has none of the nodes is left as it is. -/
lemma ring_without (h : R.ring a = some l) (hD : ∀ x ∈ a :: l, x ∉ D) : (R.without D).ring a = some l := by
  obtain ⟨ha,hl⟩ := List.forall_mem_cons.mp hD
  have hfilter : l.filter (· ∉ D) = l := List.filter_eq_self.mpr fun x hx => decide_eq_true (hl x hx)
  simp only [without, if_neg ha, h, Option.map_some, hfilter]

/-- A ring all entries of which are taken out is empty. -/
lemma ring_without_all (h : R.ring a = some l) (ha : a ∉ D) (hD : ∀ x ∈ l, x ∈ D) : (R.without D).ring a = some [] := by
  have hfilter : l.filter (· ∉ D) = [] := List.filter_eq_nil_iff.mpr fun x hx => by simpa using hD x hx
  simp only [without, if_neg ha, h, Option.map_some, hfilter]

lemma mem_loose_without (h : x ∈ R.loose) (hD : x ∉ D) : x ∈ (R.without D).loose := ⟨h,hD⟩

@[simp] lemma without_nil : R.without [] = R := by
  simp only [without, List.not_mem_nil, if_false, not_false_eq_true, decide_true, List.filter_true, Option.map_id']
  have hloose : R.loose \ {_x : ℕ | False} = R.loose := by
    ext x
    simp
  rw [hloose]

lemma without_without : (R.without D).without E = R.without (D ++ E) := by
  simp only [without, Rings.mk.injEq]
  constructor
  · funext a
    by_cases hD : a ∈ D
    · simp [hD]
    by_cases hE : a ∈ E
    · simp [hD, hE]
    · simp [hD, hE, Option.map_map, Function.comp_def, List.filter_filter, Bool.and_comm]
  · ext x
    simp only [Set.mem_sdiff, Set.mem_ofPred_eq, List.mem_append, not_or, and_assoc]

lemma mem_of_ring_ofTable {t : List (ℕ × List ℕ)} (h : (ofTable t m).ring a = some l) : (a,l) ∈ t := by
  obtain ⟨p,hp,rfl⟩ := Option.map_eq_some_iff.mp h
  have hkey : p.1 = a := key_of_lookupKey hp
  exact hkey ▸ mem_of_lookupKey hp

lemma without_congr (h : ∀ x, x ∈ D ↔ x ∈ E) : R.without D = R.without E := by
  simp [without, h]

end Rings

/-- The heap has these rings and these loose nodes, and no others. -/
structure Realizes {α : Type*} (h : Heap α) (R : Rings) : Prop where
  path : ∀ a l, R.ring a = some l → h.Path a l a
  nodup : ∀ a, (R.nodes a).Nodup
  apart : ∀ a b, a ≠ b → (R.nodes a).Disjoint (R.nodes b)
  loose : ∀ a, ∀ x ∈ R.nodes a, x ∉ R.loose
  allocated : ∀ x, (h x).isSome ↔ R.Allocated x

namespace Realizes
variable {α : Type*} {h h' : Heap α} {R : Rings} {a b x : ℕ} {l : List ℕ}

/-- The rings stand apart from the loose nodes. -/
lemma path_frame (hR : Realizes h R) {m : List ℕ}
    (hframe : ∀ x, x ∉ R.loose → h'.nextOf x = h.nextOf x ∧ h'.prevOf x = h.prevOf x) (hm : R.ring b = some m) :
    h'.Path b m b := by
  have hnot : ∀ x ∈ b :: m, x ∉ R.loose := fun x hx => hR.loose b x (Rings.nodes_some hm ▸ hx)
  exact (hR.path b m hm).frame (fun x hx => (hframe x (hnot x hx)).1)
    fun x hx => (hframe x (hnot x (Heap.mem_cons_of_mem_concat hx))).2

/-- Dissolving a ring changes nothing in the heap. -/
lemma drop (hR : Realizes h R) (a : ℕ) : Realizes h (R.drop a) := by
  have hsub : ∀ b, (R.drop a).nodes b = if b = a then [] else R.nodes b := by
    intro b
    split_ifs with hb
    · rw [hb, Rings.nodes_drop]
    · exact Rings.nodes_drop_of_ne hb
  refine ⟨fun b l hl => ?_,fun b => ?_,fun b c hbc => ?_,fun b x hx => ?_,fun x => ?_⟩
  · have hb : b ≠ a := by
      rintro rfl
      simp at hl
    exact hR.path b l (by rwa [Rings.ring_drop_of_ne hb] at hl)
  · rw [hsub]
    split_ifs
    · exact List.nodup_nil
    · exact hR.nodup b
  · rw [hsub, hsub]
    split_ifs
    · exact List.disjoint_nil_left _
    · exact List.disjoint_nil_left _
    · exact List.disjoint_nil_right _
    · exact hR.apart b c hbc
  · rw [hsub] at hx
    split_ifs at hx with hb
    · cases hx
    · rintro (hloose | hmem)
      · exact hR.loose b x hx hloose
      · exact hR.apart b a hb hx hmem
  · rw [hR.allocated]
    constructor
    · rintro (hloose | ⟨b,hb⟩)
      · exact .inl (.inl hloose)
      · by_cases hba : b = a
        · exact .inl (.inr (hba ▸ hb))
        · exact .inr ⟨b,by rwa [hsub,if_neg hba]⟩
    · rintro ((hloose | hmem) | ⟨b,hb⟩)
      · exact .inl hloose
      · exact .inr ⟨a,hmem⟩
      · rw [hsub] at hb
        split_ifs at hb
        · cases hb
        · exact .inr ⟨b,hb⟩

/-- Loose nodes are made a ring, and nothing else is changed. -/
lemma gather (hR : Realizes h R) (ha : R.ring a = none) (hd : (a :: l).Nodup) (hl : ∀ x ∈ a :: l, x ∈ R.loose)
    (hp : h'.Path a l a) (hframe : ∀ x, x ∉ R.loose → h'.nextOf x = h.nextOf x ∧ h'.prevOf x = h.prevOf x)
    (hdomain : ∀ x, (h' x).isSome = (h x).isSome) : Realizes h' (R.set a l) := by
  have hnil := Rings.nodes_none ha
  have hnodes : ∀ b, (R.set a l).nodes b = if b = a then a :: l else R.nodes b := by
    intro b
    split_ifs with hb
    · rw [hb, Rings.nodes_set]
    · exact Rings.nodes_set_of_ne hb
  have hother : ∀ b, (a :: l).Disjoint (R.nodes b) := fun b x hx hxb => hR.loose b x hxb (hl x hx)
  refine ⟨fun b m hm => ?_,fun b => ?_,fun b c hbc => ?_,fun b x hx => ?_,fun x => ?_⟩
  · by_cases hb : b = a
    · subst hb
      obtain rfl := Option.some.inj (Rings.ring_set.symm.trans hm)
      exact hp
    · rw [Rings.ring_set_of_ne hb] at hm
      exact hR.path_frame hframe hm
  · rw [hnodes]
    split_ifs
    · exact hd
    · exact hR.nodup b
  · rw [hnodes, hnodes]
    split_ifs with hb hc hc
    · exact absurd (hb.trans hc.symm) hbc
    · exact hother c
    · exact fun x hx hxa => hother b hxa hx
    · exact hR.apart b c hbc
  · rw [hnodes] at hx
    split_ifs at hx with hb
    · exact fun hmem => hmem.2 hx
    · rintro ⟨hmem | hmem,-⟩
      · exact hR.loose b x hx hmem
      · exact List.not_mem_nil (hnil ▸ hmem)
  · rw [hdomain, hR.allocated, Rings.allocated_set fun x hx => .inl (hl x hx)]

/-- A ring is changed within its own nodes and loose ones. -/
lemma set (hR : Realizes h R) (hd : (a :: l).Nodup) (hl : ∀ x ∈ a :: l, x ∈ R.loose ∨ x ∈ R.nodes a)
    (hp : h'.Path a l a)
    (hframe : ∀ x, x ∉ R.loose → x ∉ R.nodes a → h'.nextOf x = h.nextOf x ∧ h'.prevOf x = h.prevOf x)
    (hdomain : ∀ x, (h' x).isSome = (h x).isSome) : Realizes h' (R.set a l) := by
  have hset : R.set a l = (R.drop a).set a l := by simp [Rings.set,Rings.drop,Rings.nodes]
  rw [hset]
  refine (hR.drop a).gather Rings.ring_drop hd hl hp (fun x hx => ?_) hdomain
  exact hframe x (fun hloose => hx (.inl hloose)) fun hmem => hx (.inr hmem)

/-- Loose nodes may be changed at will. -/
lemma scribble (hR : Realizes h R) (hframe : ∀ x, x ∉ R.loose → h'.nextOf x = h.nextOf x ∧ h'.prevOf x = h.prevOf x)
    (hdomain : ∀ x, (h' x).isSome = (h x).isSome) : Realizes h' R := by
  exact ⟨fun b m hm => hR.path_frame hframe hm,hR.nodup,hR.apart,hR.loose,fun x => by rw [hdomain,hR.allocated]⟩

/-- The last node of a part of a ring, and the first of the rest, are nodes of the ring. -/
lemma around {m : List ℕ} (ha : R.ring a = some (l ++ m)) : l.getLastD a ∈ R.nodes a ∧ m.headD a ∈ R.nodes a := by
  rw [Rings.nodes_some ha]
  refine ⟨List.mem_append_left m (List.getLastD_mem_cons (l := l) (a := a)),?_⟩
  cases m <;> simp

lemma isSome_of_mem_nodes (hR : Realizes h R) (hx : x ∈ R.nodes a) : (h x).isSome :=
  (hR.allocated x).mpr (.inr ⟨a,hx⟩)

/-- A node of a ring points to its neighbours. -/
lemma pointers (hR : Realizes h R) {m : List ℕ} (ha : R.ring a = some (l ++ x :: m)) :
    h.nextOf x = some (m.headD a) ∧ h.prevOf x = some (l.getLastD a) := by
  obtain ⟨hp,hq⟩ := Heap.path_append.mp (hR.path a _ ha)
  exact ⟨hq.next_start,hp.prev_end⟩

/-- So does the node that names it. -/
lemma head_pointers (hR : Realizes h R) (ha : R.ring a = some l) :
    h.nextOf a = some (l.headD a) ∧ h.prevOf a = some (l.getLastD a) := by
  have hp := hR.path a _ ha
  exact ⟨hp.next_start,hp.prev_end⟩

/-- A node that is left out of its ring is loose. -/
lemma mem_loose_set (hR : Realizes h R) {m : List ℕ} (ha : R.ring a = some (l ++ x :: m)) :
    x ∈ (R.set a (l ++ m)).loose := by
  have hnodes := Rings.nodes_some ha
  have hd : (a :: (l ++ x :: m)).Nodup := hnodes ▸ hR.nodup a
  refine ⟨.inr (hnodes ▸ by simp),?_⟩
  have hperm : (a :: (l ++ x :: m)).Perm (x :: a :: (l ++ m)) := (List.perm_middle.cons a).trans (.swap x a _)
  exact (List.nodup_cons.mp (hperm.nodup_iff.mp hd)).1

/-- A new node is loose. -/
lemma allocate (hR : Realizes h R) (ha : h a = none) (node : Node α) :
    Realizes (h.set a node) { R with loose := insert a R.loose } := by
  have hnot : ∀ b, a ∉ R.nodes b := by
    intro b hb
    have := (hR.allocated a).mpr (.inr ⟨b,hb⟩)
    simp [ha] at this
  refine ⟨fun b l hl => ?_,hR.nodup,hR.apart,fun b x hx => ?_,fun x => ?_⟩
  · have hne : ∀ x ∈ b :: l, x ≠ a := by
      rintro x hx rfl
      exact hnot b (Rings.nodes_some hl ▸ hx)
    refine (hR.path b l hl).frame (fun x hx => ?_) fun x hx => ?_
    · rw [Heap.nextOf_set, if_neg (hne x hx)]
    · rw [Heap.prevOf_set, if_neg (hne x (Heap.mem_cons_of_mem_concat hx))]
  · rintro (rfl | hmem)
    · exact hnot b hx
    · exact hR.loose b x hx hmem
  · rw [Heap.isSome_set, hR.allocated]
    exact or_assoc.symm

/-- A loose node is released. -/
lemma release (hR : Realizes h R) (ha : a ∈ R.loose) : Realizes (h.erase a) { R with loose := R.loose \ {a} } := by
  have hnot : ∀ b, a ∉ R.nodes b := fun b hb => hR.loose b a hb ha
  refine ⟨fun b l hl => ?_,hR.nodup,hR.apart,fun b x hx hmem => hR.loose b x hx hmem.1,fun x => ?_⟩
  · have hne : ∀ x ∈ b :: l, x ≠ a := by
      rintro x hx rfl
      exact hnot b (Rings.nodes_some hl ▸ hx)
    exact (hR.path b l hl).frame (fun x hx => Heap.nextOf_erase (hne x hx))
      fun x hx => Heap.prevOf_erase (hne x (Heap.mem_cons_of_mem_concat hx))
  · rw [Heap.isSome_erase, hR.allocated]
    constructor
    · rintro ⟨hne,hmem | hmem⟩
      · exact .inl ⟨hmem,hne⟩
      · exact .inr hmem
    · rintro (⟨hmem,hne⟩ | ⟨b,hb⟩)
      · exact ⟨hne,.inl hmem⟩
      · exact ⟨fun heq => hnot b (heq ▸ hb),.inr ⟨b,hb⟩⟩

/-- A loose node is released and taken out of all rings, of which none has it; -/
lemma release_loose (hR : Realizes h R) (hx : x ∈ R.loose) : Realizes (h.erase x) (R.without [x]) := by
  have heq : R.without [x] = { R with loose := R.loose \ {x} } := by
    simp only [Rings.without, Rings.mk.injEq]
    constructor
    · funext b
      cases hb : R.ring b with
      | none => simp
      | some k =>
        have hnot : x ∉ b :: k := fun hxk => hR.loose b x (Rings.nodes_some hb ▸ hxk) hx
        have hbx : b ∉ [x] := fun hbx => hnot (List.mem_singleton.mp hbx ▸ List.mem_cons_self)
        rw [if_neg hbx, Option.map_some, List.filter_eq_self.mpr fun y hy => ?_]
        have hne : y ≠ x := fun heq => hnot (List.mem_cons_of_mem b (heq ▸ hy))
        simpa using hne
    · ext y
      simp
  rw [heq]
  exact hR.release hx

/-- so is a node that names a ring of its own, -/
lemma release_head (hR : Realizes h R) (ha : R.ring a = some []) : Realizes (h.erase a) (R.without [a]) := by
  have hnodes := Rings.nodes_some ha
  have hloose : a ∈ (R.drop a).loose := .inr (hnodes ▸ List.mem_cons_self)
  have heq : R.without [a] = (R.drop a).without [a] := by
    simp only [Rings.without, Rings.drop, Rings.mk.injEq]
    constructor
    · funext b
      by_cases hba : b = a
      · simp [hba]
      · rw [Function.update_of_ne hba]
    · ext y
      simp only [Set.mem_sdiff, Set.mem_ofPred_eq, Set.mem_union, List.mem_singleton, hnodes]
      tauto
  rw [heq]
  exact (hR.drop a).release_loose hloose

/-- A ring without an entry that is to be taken out of all of them. -/
lemma without_set (hR : Realizes h R) {m D : List ℕ} (ha : R.ring a = some (l ++ x :: m)) (hx : x ∈ D) :
    (R.set a (l ++ m)).without D = R.without D := by
  have hnodes := Rings.nodes_some ha
  simp only [Rings.without, Rings.set, Rings.mk.injEq]
  constructor
  · funext b
    by_cases hb : b = a
    · subst hb
      have hrest : (l ++ x :: m).filter (· ∉ D) = (l ++ m).filter (· ∉ D) := by
        rw [List.filter_append, List.filter_append, List.filter_cons_of_neg (by simpa using hx)]
      rw [Function.update_self, ha, Option.map_some, Option.map_some, hrest]
    · rw [Function.update_of_ne hb]
  · ext y
    simp only [Set.mem_sdiff, Set.mem_ofPred_eq, Set.mem_union, hnodes]
    constructor
    · rintro ⟨⟨hloose | hy,hnot⟩,hD⟩
      · exact ⟨hloose,hD⟩
      · refine absurd ?_ hnot
        simp only [List.mem_cons, List.mem_append] at hy ⊢
        rcases hy with hy | hy | rfl | hy
        · exact .inl hy
        · exact .inr (.inl hy)
        · exact absurd hx hD
        · exact .inr (.inr hy)
    · rintro ⟨hloose,hD⟩
      refine ⟨⟨.inl hloose,fun hy => hR.loose a y (hnodes ▸ ?_) hloose⟩,hD⟩
      simp only [List.mem_cons, List.mem_append] at hy ⊢
      tauto

/-- and an entry that was taken out of its ring. -/
lemma release_entry (hR : Realizes h R) {m : List ℕ} (ha : R.ring a = some (l ++ x :: m))
    (hout : Realizes h' (R.set a (l ++ m))) : Realizes (h'.erase x) (R.without [x]) := by
  rw [← hR.without_set ha (List.mem_singleton_self x)]
  exact hout.release_loose (hR.mem_loose_set ha)

/-- A heap in which these are the rings, and these nodes in none. -/
lemma ofTable {t : List (ℕ × List ℕ)} {loose : List ℕ} (hpath : ∀ p ∈ t, h.Path p.1 p.2 p.1)
    (hd : (t.flatMap (fun p => p.1 :: p.2) ++ loose).Nodup)
    (hdomain : ∀ x, (h x).isSome ↔ x ∈ t.flatMap (fun p => p.1 :: p.2) ++ loose) :
    Realizes h (Rings.ofTable t loose) := by
  obtain ⟨hrings,-,hloose⟩ := List.nodup_append'.mp hd
  obtain ⟨heach,hpair⟩ := List.nodup_flatMap.mp hrings
  have hsymm : Std.Symm (Function.onFun List.Disjoint fun p : ℕ × List ℕ => p.1 :: p.2) :=
    ⟨fun _ _ h _ hx hy => h hy hx⟩
  have hmem : ∀ a, ∀ x ∈ (Rings.ofTable t loose).nodes a, ∃ l, (a,l) ∈ t ∧ x ∈ a :: l := fun a x hx => by
    obtain ⟨l,hl,hx⟩ := Rings.ring_of_mem_nodes hx
    exact ⟨l,Rings.mem_of_ring_ofTable hl,hx⟩
  refine ⟨fun a l hl => hpath (a,l) (Rings.mem_of_ring_ofTable hl),fun a => ?_,fun a b hab x hxa hxb => ?_,fun a x hx => ?_,
    fun x => ?_⟩
  · cases hring : (Rings.ofTable t loose).ring a with
    | none => rw [Rings.nodes_none hring]; exact List.nodup_nil
    | some l => rw [Rings.nodes_some hring]; exact heach (a,l) (Rings.mem_of_ring_ofTable hring)
  · obtain ⟨l,hl,hxl⟩ := hmem a x hxa
    obtain ⟨m,hm,hxm⟩ := hmem b x hxb
    have hne : (a,l) ≠ (b,m) := fun heq => hab (congrArg Prod.fst heq)
    exact hpair.forall hl hm hne hxl hxm
  · obtain ⟨l,hl,hxl⟩ := hmem a x hx
    exact fun hx => hloose (List.mem_flatMap.mpr ⟨(a,l),hl,hxl⟩) hx
  · rw [hdomain, List.mem_append, or_comm]
    refine or_congr_right ⟨fun hx => ?_,fun ⟨a,hx⟩ => ?_⟩
    · obtain ⟨⟨a,l⟩,hl,hx⟩ := List.mem_flatMap.mp hx
      cases hring : (Rings.ofTable t loose).ring a with
      | none => exact absurd (List.mem_map_of_mem hl) (lookupKey_eq_none_iff.mp (Option.map_eq_none_iff.mp hring))
      | some m =>
        have hm := Rings.mem_of_ring_ofTable hring
        have heq : (a,l) = (a,m) := by
          by_contra hne
          exact hpair.forall hl hm hne List.mem_cons_self List.mem_cons_self
        obtain rfl := (Prod.mk.inj heq).2
        exact ⟨a,Rings.nodes_some hring ▸ hx⟩
    · obtain ⟨l,hl,hxl⟩ := hmem a x hx
      exact List.mem_flatMap.mpr ⟨(a,l),hl,hxl⟩

end Realizes

end Xctools.Machine
