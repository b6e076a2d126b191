import Mathlib.Data.List.Nodup
import Mathlib.Logic.Relation
import Xctools.Machine.Outcome

/-! Two ways to follow a relation that is given by lists of successors. `collect` goes depth first and puts
every node it meets at the end of one list; `rescue` is a round of a sweep that takes nodes out of one list
and puts them at the end of another, whose front is worked off. -/
namespace Xctools.Machine
open Relation

section Collect
universe u
variable {α : Type u} (succ : α → List α)

/-- What has been noted behind `seen`: the given nodes and all that can be reached from them through nodes
that are new. -/
structure Collected (ds seen out : List α) : Prop where
  grown : seen ⊆ out
  nodup : seen.Nodup → out.Nodup
  starts : ∀ d ∈ ds, d ∈ out
  closed : ∀ x ∈ out, x ∉ seen → ∀ d ∈ succ x, d ∈ out
  sound : ∀ x ∈ out, x ∉ seen → ∃ d ∈ ds, ReflTransGen (fun a b => b ∈ succ a) d x

variable {succ} {n : ℕ} {ds seen mid out : List α} {d : α}

lemma collected_nil (seen : List α) : Collected succ [] seen seen where
  grown := List.Subset.refl _
  nodup h := h
  starts := by simp
  closed x hx hn := absurd hx hn
  sound x hx hn := absurd hx hn

lemma Collected.cons_seen (h : Collected succ ds seen out) (hd : d ∈ seen) : Collected succ (d :: ds) seen out where
  grown := h.grown
  nodup := h.nodup
  starts := List.forall_mem_cons.mpr ⟨h.grown hd,h.starts⟩
  closed := h.closed
  sound x hx hn := by
    obtain ⟨e,he,hreach⟩ := h.sound x hx hn
    exact ⟨e,List.mem_cons_of_mem _ he,hreach⟩

/-- A new node is followed before the others. -/
lemma Collected.cons_new (hfirst : Collected succ (succ d) (seen ++ [d]) mid) (hrest : Collected succ ds mid out)
    (hd : d ∉ seen) : Collected succ (d :: ds) seen out where
  grown x hx := hrest.grown (hfirst.grown (List.mem_append_left _ hx))
  nodup h := hrest.nodup (hfirst.nodup (h.append (List.nodup_singleton d) (by simpa using hd)))
  starts := by
    rw [List.forall_mem_cons]
    exact ⟨hrest.grown (hfirst.grown (by simp)),hrest.starts⟩
  closed x hx hn e he := by
    by_cases hmid : x ∈ mid
    · by_cases hxd : x = d
      · subst hxd
        exact hrest.grown (hfirst.starts e he)
      · exact hrest.grown (hfirst.closed x hmid (by simp [hn, hxd]) e he)
    · exact hrest.closed x hx hmid e he
  sound x hx hn := by
    by_cases hmid : x ∈ mid
    · refine ⟨d,List.mem_cons_self,?_⟩
      by_cases hxd : x = d
      · rw [hxd]
      · obtain ⟨e,he,hreach⟩ := hfirst.sound x hmid (by simp [hn, hxd])
        exact .head he hreach
    · obtain ⟨e,he,hreach⟩ := hrest.sound x hx hmid
      exact ⟨e,List.mem_cons_of_mem _ he,hreach⟩

variable [DecidableEq α]

/-- Depth first from a list of nodes: what is new is noted and followed. At most `n` deep. -/
def collect (succ : α → List α) : ℕ → List α → List α → Outcome (List α)
  | 0, _, _ => .error .loop
  | n + 1, ds, seen =>
    ds.foldlM (fun seen d => if d ∈ seen then .ok seen else collect succ n (succ d) (seen ++ [d])) seen

theorem collected_of_collect (h : collect succ n ds seen = .ok out) : Collected succ ds seen out := by
  induction n generalizing ds seen out with
  | zero => cases h
  | succ n ih =>
    rw [collect] at h
    induction ds generalizing seen with
    | nil =>
      obtain rfl := Except.ok.inj h
      exact collected_nil _
    | cons d ds ihds =>
      rw [List.foldlM_cons] at h
      obtain ⟨mid,hmid,h⟩ := bind_eq_ok.mp h
      split_ifs at hmid with hd
      · obtain rfl := Except.ok.inj hmid
        exact (ihds h).cons_seen hd
      · exact (ih hmid).cons_new (ihds h) hd

/-- How many nodes of a list have not been noted. -/
def unseen (univ seen : List α) : ℕ := univ.countP fun x => x ∉ seen

lemma unseen_le {univ : List α} (h : seen ⊆ out) : unseen univ out ≤ unseen univ seen := by
  apply List.countP_mono_left
  intro x _ hx
  simp only [decide_eq_true_eq] at hx ⊢
  exact fun hmem => hx (h hmem)

lemma unseen_append_lt {univ : List α} (hmem : d ∈ univ) (hd : d ∉ seen) :
    unseen univ (seen ++ [d]) < unseen univ seen := by
  induction univ with
  | nil => cases hmem
  | cons x univ ih =>
    have hle : unseen univ (seen ++ [d]) ≤ unseen univ seen := unseen_le (List.subset_append_left _ _)
    have hcons : ∀ l : List α, unseen (x :: univ) l = unseen univ l + if x ∈ l then 0 else 1 := by
      intro l
      rw [unseen, List.countP_cons]
      by_cases hx : x ∈ l <;> simp [hx, unseen]
    rw [hcons, hcons]
    by_cases hx : x = d
    · subst hx
      rw [if_pos (by simp), if_neg hd]
      omega
    · have hlt := ih ((List.mem_cons.mp hmem).resolve_left (Ne.symm hx))
      have hsame : x ∈ seen ++ [d] ↔ x ∈ seen := by simp [hx]
      simp only [hsame]
      omega

/-- It is enough to go as deep as there are nodes that are not yet noted. -/
theorem collect_ok {univ : List α} (hsucc : ∀ x, ∀ d ∈ succ x, d ∈ univ) (hds : ∀ d ∈ ds, d ∈ univ)
    (hn : unseen univ seen < n) : ∃ out, collect succ n ds seen = .ok out := by
  induction n generalizing ds seen with
  | zero => omega
  | succ n ih =>
    rw [collect]
    induction ds generalizing seen with
    | nil => exact ⟨seen,rfl⟩
    | cons d ds ihds =>
      obtain ⟨hd,hds⟩ := List.forall_mem_cons.mp hds
      by_cases hseen : d ∈ seen
      · obtain ⟨out,hout⟩ := ihds hds hn
        exact ⟨out,by rw [List.foldlM_cons, if_pos hseen]; exact hout⟩
      · have hlt := unseen_append_lt hd hseen
        obtain ⟨mid,hmid⟩ := ih (hsucc d) (show unseen univ (seen ++ [d]) < n by omega)
        have hle : unseen univ mid ≤ unseen univ (seen ++ [d]) := unseen_le (collected_of_collect hmid).grown
        obtain ⟨out,hout⟩ := ihds hds (show unseen univ mid < n + 1 by omega)
        exact ⟨out,by rw [List.foldlM_cons, if_neg hseen, hmid]; exact hout⟩

/-- From nothing, what is collected is what can be reached. -/
theorem mem_collect_iff (h : collect succ n ds [] = .ok out) {x : α} :
    x ∈ out ↔ ∃ d ∈ ds, ReflTransGen (fun a b => b ∈ succ a) d x := by
  have hout := collected_of_collect h
  constructor
  · exact fun hx => hout.sound x hx (by simp)
  · rintro ⟨d,hd,hreach⟩
    induction hreach with
    | refl => exact hout.starts d hd
    | tail _ hstep ih => exact hout.closed _ ih (by simp) _ hstep

end Collect

section Sweep
universe u
variable {α : Type u} (succ : α → List α) (start target : List α)

/-- What can be reached from the start by steps that end in the target. -/
def Reached (x : α) : Prop := ∃ s ∈ start, ReflTransGen (fun a b => b ∈ succ a ∧ b ∈ target) s x

/-- The state of a sweep: what was taken out of the target has been reached, and only what is still to be
worked off has successors at risk. -/
structure Sweep (todo risk : List α) : Prop where
  nodup : risk.Nodup
  subset : ∀ x ∈ risk, x ∈ target
  pending : ∀ x ∈ todo, Reached succ start target x
  saved : ∀ x ∈ target, x ∉ risk → Reached succ start target x
  swept : ∀ x, x ∈ start ∨ x ∈ target ∧ x ∉ risk → x ∈ todo ∨ ∀ d ∈ succ x, d ∉ risk

variable {succ start target} {todo risk : List α} {x : α}

lemma sweep_start (h : target.Nodup) : Sweep succ start target start target where
  nodup := h
  subset _ hx := hx
  pending s hs := ⟨s,hs,.refl⟩
  saved _ hx hn := absurd hx hn
  swept _ hx := hx.imp id fun hmem => absurd hmem.1 hmem.2

/-- At the end, no successor of what is safe is at risk. -/
lemma Sweep.closed (h : Sweep succ start target [] risk) (hx : x ∈ start ∨ x ∈ target ∧ x ∉ risk) :
    ∀ d ∈ succ x, d ∉ risk := (h.swept x hx).resolve_left (by simp)

lemma Sweep.safe (h : Sweep succ start target [] risk) (hx : Reached succ start target x) :
    x ∈ start ∨ x ∈ target ∧ x ∉ risk := by
  obtain ⟨s,hs,hreach⟩ := hx
  induction hreach with
  | refl => exact .inl hs
  | tail _ hstep ih => exact .inr ⟨hstep.2,h.closed ih _ hstep.1⟩

/-- What is left is what cannot be reached. -/
theorem Sweep.mem_risk_iff (h : Sweep succ start target [] risk) (hdisjoint : ∀ s ∈ start, s ∉ target) :
    x ∈ risk ↔ x ∈ target ∧ ¬ Reached succ start target x := by
  constructor
  · intro hx
    refine ⟨h.subset x hx,fun hreach => ?_⟩
    rcases h.safe hreach with hstart | ⟨-,hn⟩
    · exact hdisjoint x hstart (h.subset x hx)
    · exact hn hx
  · rintro ⟨hx,hn⟩
    by_contra hrisk
    exact hn (h.saved x hx hrisk)

variable [DecidableEq α]

/-- One round: the given nodes that are at risk go behind those that are to be worked off. -/
def rescue (ds todo risk : List α) : List α × List α :=
  ds.foldl (fun (lists : List α × List α) d =>
    if d ∈ lists.2 then (lists.1 ++ [d], lists.2.erase d) else lists) (todo, risk)

/-- The other nodes stay where they are, and no node is lost. -/
structure Rescued (ds todo risk : List α) (lists : List α × List α) : Prop where
  nodup : lists.2.Nodup
  mem_risk : ∀ x, x ∈ lists.2 ↔ x ∈ risk ∧ x ∉ ds
  mem_todo : ∀ x, x ∈ lists.1 ↔ x ∈ todo ∨ x ∈ risk ∧ x ∈ ds
  length : lists.1.length + lists.2.length = todo.length + risk.length

theorem rescued_rescue (ds todo : List α) {risk : List α} (h : risk.Nodup) :
    Rescued ds todo risk (rescue ds todo risk) := by
  unfold rescue
  induction ds generalizing todo risk with
  | nil => exact ⟨h,by simp,by simp,rfl⟩
  | cons d ds ih =>
    rw [List.foldl_cons]
    by_cases hd : d ∈ risk
    · rw [if_pos hd]
      have hr := ih (todo ++ [d]) (h.erase d)
      have hlen := List.length_erase_of_mem hd
      have hpos := List.length_pos_of_mem hd
      refine ⟨hr.nodup,fun x => ?_,fun x => ?_,?_⟩
      · rw [hr.mem_risk, h.mem_erase_iff, List.mem_cons]
        tauto
      · rw [hr.mem_todo, h.mem_erase_iff, List.mem_append, List.mem_singleton, List.mem_cons]
        by_cases hx : x = d
        · subst hx
          tauto
        · tauto
      · rw [hr.length, hlen, List.length_append, List.length_singleton]
        omega
    · rw [if_neg hd]
      have hr := ih todo h
      refine ⟨hr.nodup,fun x => ?_,fun x => ?_,hr.length⟩
      · rw [hr.mem_risk, List.mem_cons]
        constructor
        · rintro ⟨hx,hn⟩
          refine ⟨hx,?_⟩
          rintro (rfl | hmem)
          · exact hd hx
          · exact hn hmem
        · rintro ⟨hx,hn⟩
          exact ⟨hx,fun hmem => hn (.inr hmem)⟩
      · rw [hr.mem_todo, List.mem_cons]
        constructor
        · rintro (hx | ⟨hx,hmem⟩)
          · exact .inl hx
          · exact .inr ⟨hx,.inr hmem⟩
        · rintro (hx | ⟨hx,rfl | hmem⟩)
          · exact .inl hx
          · exact absurd hx hd
          · exact .inr ⟨hx,hmem⟩

/-- The first node is worked off with a list that names the same nodes at risk as its successors do. -/
lemma Sweep.round (h : Sweep succ start target (x :: todo) risk) {ds : List α}
    (hds : ∀ d ∈ risk, d ∈ ds ↔ d ∈ succ x) :
    Sweep succ start target (rescue ds todo risk).1 (rescue ds todo risk).2 := by
  have hr := rescued_rescue ds todo h.nodup
  have hx := h.pending x List.mem_cons_self
  have hmoved : ∀ d ∈ risk, d ∈ ds → Reached succ start target d := by
    intro d hd hmem
    obtain ⟨s,hs,hreach⟩ := hx
    exact ⟨s,hs,hreach.tail ⟨(hds d hd).mp hmem,h.subset d hd⟩⟩
  refine ⟨hr.nodup,fun d hd => h.subset d ((hr.mem_risk d).mp hd).1,?_,?_,?_⟩
  · intro d hd
    rcases (hr.mem_todo d).mp hd with hd | ⟨hd,hmem⟩
    · exact h.pending d (List.mem_cons_of_mem _ hd)
    · exact hmoved d hd hmem
  · intro d hd hn
    by_cases hrisk : d ∈ risk
    · by_cases hmem : d ∈ ds
      · exact hmoved d hrisk hmem
      · exact absurd ((hr.mem_risk d).mpr ⟨hrisk,hmem⟩) hn
    · exact h.saved d hd hrisk
  · intro y hy
    have hgone : ∀ d, d ∉ risk → d ∉ (rescue ds todo risk).2 := fun d hd hmem => hd ((hr.mem_risk d).mp hmem).1
    have hworked : y = x → ∀ d ∈ succ y, d ∉ (rescue ds todo risk).2 := by
      rintro rfl d hd hmem
      obtain ⟨hrisk,hnot⟩ := (hr.mem_risk d).mp hmem
      exact hnot ((hds d hrisk).mpr hd)
    have hold : y ∈ x :: todo ∨ (∀ d ∈ succ y, d ∉ risk) →
        y ∈ (rescue ds todo risk).1 ∨ ∀ d ∈ succ y, d ∉ (rescue ds todo risk).2 := by
      rintro (hmem | hfree)
      · rcases List.mem_cons.mp hmem with he | hmem
        · exact .inr (hworked he)
        · exact .inl ((hr.mem_todo y).mpr (.inl hmem))
      · exact .inr fun d hd => hgone d (hfree d hd)
    rcases hy with hy | ⟨hy,hn⟩
    · exact hold (h.swept y (.inl hy))
    · by_cases hrisk : y ∈ risk
      · by_cases hmem : y ∈ ds
        · exact .inl ((hr.mem_todo y).mpr (.inr ⟨hrisk,hmem⟩))
        · exact absurd ((hr.mem_risk y).mpr ⟨hrisk,hmem⟩) hn
      · exact hold (h.swept y (.inr ⟨hy,hrisk⟩))

end Sweep

end Xctools.Machine
