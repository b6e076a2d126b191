import Mathlib.Data.List.Perm.Subperm
import Xctools.Machine.Run
import Xctools.Machine.LinkRing

/-! The list of signal links of `rpc-dbus.c`. It has three forms: no link, one link with NULL
neighbours, and a ring. Links are put in before the head, that is at the end. -/
namespace Xctools.Broker
open Machine

/-- What the callers of `add_dbus_signal` fill in: `DBUS_SIGNAL_TYPE_SERVER`, or
`DBUS_SIGNAL_TYPE_CLIENT` with the websocket its signals are for. -/
inductive DbusLink
  | server
  | client (wsi : ℕ)
  deriving DecidableEq, Repr

/-- The global `dlinks`, the links in memory, and the address `malloc` returns next. -/
structure Dlinks where
  heap : Heap DbusLink
  fresh : ℕ
  head : Option ℕ

/-- `add_dbus_signal`, with what its caller fills in. -/
def addDbusSignal (s : Dlinks) (data : DbusLink) : Outcome (ℕ × Dlinks) :=
  let new := s.fresh
  match s.head with
  | none => .ok (new, ⟨s.heap.set new ⟨none, none, data⟩, new + 1, some new⟩)
  | some head => do
    let node ← s.heap.read (some head)
    match node.prev with
    | none =>
      let heap ← s.heap.modify (some head) fun n => { n with prev := some new, next := some new }
      return (new, ⟨heap.set new ⟨some head, some head, data⟩, new + 1, some head⟩)
    | some tail =>
      let heap ← s.heap.modify (some tail) fun n => { n with next := some new }
      let heap ← heap.modify (some head) fun n => { n with prev := some new }
      return (new, ⟨heap.set new ⟨some head, some tail, data⟩, new + 1, some head⟩)

/-- `remove_dlink`. -/
def removeDlink (s : Dlinks) (link : ℕ) : Outcome Dlinks :=
  if s.head = some link then do
    let heap ← s.heap.release link
    return { s with heap, head := none }
  else do
    let node ← s.heap.read (some link)
    let heap ← s.heap.modify node.next fun n => { n with prev := node.prev }
    let node ← heap.read (some link)
    let heap ← heap.modify node.prev fun n => { n with next := node.next }
    let heap ← heap.release link
    return { s with heap }

/-- The loop of `free_dlinks`: the links it releases, in order. -/
def freeLoop (head : ℕ) : ℕ → Heap DbusLink → Option ℕ → Outcome (Heap DbusLink × List ℕ)
  | 0, _, _ => .error .loop
  | _ + 1, _, none => .error .null
  | n + 1, heap, some curr =>
    if curr = head then .ok (heap, [])
    else do
      let node ← heap.read (some curr)
      let heap ← heap.release curr
      let (heap, freed) ← freeLoop head n heap node.next
      return (heap, curr :: freed)

/-- `free_dlinks`. No address is handed out twice, so the loop cannot go round more often than
there were allocations. -/
def freeDlinks (s : Dlinks) : Outcome (Dlinks × List ℕ) :=
  match s.head with
  | none => .ok (s, [])
  | some head => do
    let node ← s.heap.read (some head)
    let (heap, freed) ← freeLoop head (s.fresh + 1) s.heap node.next
    let heap ← heap.release head
    return ({ s with heap, head := none }, freed ++ [head])

/-- The `do` loop of `service_ws_signals`: the links it looks at, in order. -/
def visitLoop (heap : Heap DbusLink) (head : ℕ) : ℕ → ℕ → Outcome (List ℕ)
  | 0, _ => .error .loop
  | n + 1, curr => do
    let node ← heap.read (some curr)
    match node.next with
    | none => return [curr]
    | some next =>
      if next = head then return [curr]
      else return curr :: (← visitLoop heap head n next)

/-- The order in which `service_ws_signals` goes through the links. -/
def visited (s : Dlinks) : Outcome (List ℕ) :=
  match s.head with
  | none => .ok []
  | some head => visitLoop s.heap head (s.fresh + 1) head

/-- A closed ring: from the first link `next` leads over the others, in order, back to it, and
`prev` is the inverse. -/
def Closed (heap : Heap DbusLink) : List ℕ → Prop
  | [] => True
  | a :: l => heap.Path a l a

/-- One link that never had a neighbour. -/
def Lone (heap : Heap DbusLink) (l : List ℕ) : Prop :=
  ∃ a, l = [a] ∧ heap.nextOf a = none ∧ heap.prevOf a = none

/-- The list holds exactly these links, in this order. -/
structure Dlinks.Holds (s : Dlinks) (l : List ℕ) : Prop where
  head : s.head = l.head?
  nodup : l.Nodup
  live : ∀ a, (s.heap a).isSome ↔ a ∈ l
  bound : ∀ a ∈ l, a < s.fresh
  shape : Closed s.heap l ∨ Lone s.heap l

/-- Following a path to the head visits its nodes and stops. -/
lemma visitLoop_path {heap : Heap DbusLink} {head curr n : ℕ} {l : List ℕ}
    (hp : heap.Path curr l head) (hh : head ∉ l) (hn : l.length < n) :
    visitLoop heap head n curr = .ok (curr :: l) := by
  induction l generalizing curr n with
  | nil =>
    obtain ⟨k,rfl⟩ := Nat.exists_eq_succ_of_ne_zero (by omega : n ≠ 0)
    obtain ⟨node,hc,hnext⟩ := Heap.exists_of_nextOf hp.1
    simp [visitLoop, Heap.read_some hc, hnext]
  | cons x l ih =>
    obtain ⟨k,rfl⟩ := Nat.exists_eq_succ_of_ne_zero (by omega : n ≠ 0)
    obtain ⟨hxh,hhl⟩ := List.ne_and_not_mem_of_not_mem_cons hh
    obtain ⟨⟨hnx,-⟩,hp⟩ := hp
    obtain ⟨node,hc,hnext⟩ := Heap.exists_of_nextOf hnx
    have hrest := ih hp hhl (n := k) (by simp only [List.length_cons] at hn; omega)
    simp [visitLoop, Heap.read_some hc, hnext, hxh.symm, hrest]

lemma Dlinks.Holds.length_le {s : Dlinks} {l : List ℕ} (h : s.Holds l) : l.length ≤ s.fresh := by
  have hsub : l ⊆ List.range s.fresh := fun a ha => List.mem_range.mpr (h.bound a ha)
  simpa using (List.subperm_of_subset h.nodup hsub).length_le

/-- Every traversal visits each link once, in insertion order. -/
lemma Dlinks.Holds.visited_eq {s : Dlinks} {l : List ℕ} (h : s.Holds l) : visited s = .ok l := by
  cases l with
  | nil => simp [visited, h.head]
  | cons a l =>
    have hhead : s.head = some a := h.head
    have hlen : l.length < s.fresh + 1 := by
      have := h.length_le
      simp only [List.length_cons] at this
      omega
    rcases h.shape with hc | ⟨b,hl,hnext,-⟩
    · simp [visited, hhead, visitLoop_path hc (List.nodup_cons.mp h.nodup).1 hlen]
    · obtain ⟨rfl,rfl⟩ := List.cons.inj hl
      obtain ⟨node,hn⟩ := Option.isSome_iff_exists.mp ((h.live a).mpr (by simp))
      have : node.next = none := by simpa [Heap.nextOf, hn] using hnext
      simp [visited, hhead, visitLoop, Heap.read_some hn, this]

/-- The loop of `free_dlinks` releases the nodes of a path to the head. -/
lemma freeLoop_path {heap : Heap DbusLink} {head curr n : ℕ} {l : List ℕ}
    (hp : heap.Path curr l head) (hd : (curr :: l).Nodup) (hh : head ∉ curr :: l)
    (hn : l.length + 1 < n) :
    ∃ heap', freeLoop head n heap (some curr) = .ok (heap', curr :: l) ∧
      ∀ a, heap' a = if a ∈ curr :: l then none else heap a := by
  induction l generalizing curr heap n with
  | nil =>
    obtain ⟨k,rfl⟩ : ∃ k, n = k + 1 + 1 := ⟨n - 2,by simp only [List.length_nil] at hn; omega⟩
    obtain ⟨node,hc,hnext⟩ := Heap.exists_of_nextOf hp.1
    have hne : curr ≠ head := fun heq => hh (by simp [heq])
    refine ⟨heap.erase curr,?_,fun a => by simp [Heap.erase]⟩
    have hstop : freeLoop head (k + 1) (heap.erase curr) (some head) =
        .ok (heap.erase curr, []) := by simp [freeLoop]
    rw [freeLoop, if_neg hne, Heap.read_some hc, ok_bind,
      Heap.release_some (by simp [hc]), ok_bind, hnext, hstop]
    rfl
  | cons x l ih =>
    obtain ⟨k,rfl⟩ := Nat.exists_eq_succ_of_ne_zero (by omega : n ≠ 0)
    obtain ⟨⟨hnx,-⟩,hp⟩ := hp
    obtain ⟨node,hc,hnext⟩ := Heap.exists_of_nextOf hnx
    obtain ⟨hcl,hd'⟩ := List.nodup_cons.mp hd
    obtain ⟨hhc,hh'⟩ := List.ne_and_not_mem_of_not_mem_cons hh
    -- the rest of the path does not go through the released node
    have hp' : (heap.erase curr).Path x l head := by
      refine hp.frame (fun y hy => ?_) (fun y hy => ?_)
      · have : y ≠ curr := by grind
        simp [Heap.nextOf, Heap.erase, this]
      · have : y ≠ curr := by grind
        simp [Heap.prevOf, Heap.erase, this]
    obtain ⟨heap',hloop,hheap⟩ := ih hp' hd' hh' (n := k) (by simp only [List.length_cons] at hn; omega)
    refine ⟨heap',?_,fun a => ?_⟩
    · rw [freeLoop, if_neg hhc.symm, Heap.read_some hc, ok_bind,
        Heap.release_some (by simp [hc]), ok_bind, hnext, hloop]
      rfl
    · rw [hheap a]
      by_cases ha : a = curr <;> simp [Heap.erase, ha]

/-- `free_dlinks` releases each link once, the head last, and ends, unless the list is a link that
never had a neighbour. -/
lemma Dlinks.Holds.freeDlinks {s : Dlinks} {l : List ℕ} (h : s.Holds l) (hl : ¬ Lone s.heap l) :
    ∃ s', freeDlinks s = .ok (s', l.tail ++ l.head?.toList) ∧ s'.Holds [] := by
  have hc : Closed s.heap l := h.shape.resolve_right hl
  cases l with
  | nil => exact ⟨s,by simp [Broker.freeDlinks, h.head],h⟩
  | cons a l =>
    have hhead : s.head = some a := h.head
    obtain ⟨hal,hd⟩ := List.nodup_cons.mp h.nodup
    obtain ⟨node,hn⟩ := Option.isSome_iff_exists.mp ((h.live a).mpr (by simp))
    have hempty : ∀ heap' : Heap DbusLink, (∀ b, heap' b = if b ∈ l then none else s.heap b) →
        Dlinks.Holds { s with heap := heap'.erase a, head := none } [] := by
      intro heap' hheap
      refine ⟨rfl,List.nodup_nil,fun b => ?_,by simp,.inl trivial⟩
      have hlive := h.live b
      by_cases hb : b = a
      · simp [Heap.erase, hb]
      · by_cases hbl : b ∈ l
        · simp [Heap.erase, hb, hheap, hbl]
        · simpa [Heap.erase, hb, hheap, hbl] using hlive
    cases l with
    | nil =>
      have hnext : node.next = some a := by simpa [Heap.nextOf, hn] using hc.1
      refine ⟨_,?_,hempty s.heap (by simp)⟩
      simp [Broker.freeDlinks, hhead, Heap.read_some hn, hnext, freeLoop, Heap.release_some, hn]
    | cons x l =>
      have hnext : node.next = some x := by simpa [Heap.nextOf, hn] using hc.1.1
      have hlen := h.length_le
      simp only [List.length_cons] at hlen
      obtain ⟨heap',hloop,hheap⟩ := freeLoop_path hc.2 hd hal (n := s.fresh + 1) (by omega)
      refine ⟨_,?_,hempty heap' hheap⟩
      have ha' : (heap' a).isSome := by simp [hheap, hal, hn]
      simp [Broker.freeDlinks, hhead, Heap.read_some hn, hnext, hloop, Heap.release_some ha']

lemma Dlinks.Holds.exists_node {s : Dlinks} {l : List ℕ} (h : s.Holds l) {a : ℕ} (ha : a ∈ l) :
    ∃ node, s.heap a = some node :=
  Option.isSome_iff_exists.mp ((h.live a).mpr ha)

lemma Dlinks.Holds.fresh_not_mem {s : Dlinks} {l : List ℕ} (h : s.Holds l) : s.fresh ∉ l :=
  fun hm => absurd (h.bound s.fresh hm) (Nat.lt_irrefl _)

/-- A list with a new link at its end, in whichever form. -/
lemma Dlinks.Holds.extend {s : Dlinks} {l : List ℕ} (h : s.Holds l) {heap : Heap DbusLink}
    {head : Option ℕ} (hhead : head = (l ++ [s.fresh]).head?)
    (hlive : ∀ b, (heap b).isSome ↔ b = s.fresh ∨ (s.heap b).isSome)
    (hshape : Closed heap (l ++ [s.fresh]) ∨ Lone heap (l ++ [s.fresh])) :
    Dlinks.Holds ⟨heap, s.fresh + 1, head⟩ (l ++ [s.fresh]) where
  head := hhead
  nodup := List.nodup_append.mpr ⟨h.nodup,List.nodup_singleton _,fun a ha b hb heq =>
    h.fresh_not_mem (List.mem_singleton.mp hb ▸ heq ▸ ha)⟩
  live b := by
    rw [hlive, h.live]
    simp [or_comm]
  bound a ha := by
    rcases List.mem_append.mp ha with ha | ha
    · exact Nat.lt_succ_of_lt (h.bound a ha)
    · simp [List.mem_singleton.mp ha]
  shape := hshape

/-- `add_dbus_signal` puts its link at the end. -/
lemma Dlinks.Holds.add {s : Dlinks} {l : List ℕ} (h : s.Holds l) (data : DbusLink) :
    ∃ s', addDbusSignal s data = .ok (s.fresh, s') ∧ s'.Holds (l ++ [s.fresh]) ∧
      s'.heap.dataOf s.fresh = some data ∧ ∀ a ∈ l, s'.heap.dataOf a = s.heap.dataOf a := by
  have hold : ∀ a ∈ l, a ≠ s.fresh := fun a ha heq => h.fresh_not_mem (heq ▸ ha)
  cases l with
  | nil =>
    let heap := s.heap.set s.fresh ⟨none, none, data⟩
    have hlone : Lone heap [s.fresh] :=
      ⟨s.fresh,rfl,by simp [heap, Heap.nextOf_set],by simp [heap, Heap.prevOf_set]⟩
    refine ⟨⟨heap, s.fresh + 1, some s.fresh⟩,?_,
      h.extend rfl (fun b => Heap.isSome_set _ _ _) (.inr hlone),?_,by simp⟩
    · simp [addDbusSignal, h.head, heap]
    · simp [heap, Heap.dataOf_set]
  | cons a m =>
    have hhead : s.head = some a := h.head
    obtain ⟨node,hn⟩ := h.exists_node (a := a) (by simp)
    rcases h.shape with hc | ⟨b,hl,-,hprev⟩
    · -- a ring: the new link goes between the last one and the head
      have hlast := Heap.isSome_of_nextOf hc.next_last
      have hnp : node.prev = some (m.getLastD a) := by
        have := hc.prev_end
        rwa [Heap.prevOf, hn] at this
      refine ⟨⟨s.heap.link a (m.getLastD a) s.fresh data, s.fresh + 1, some a⟩,?_,
        h.extend rfl (fun b => by simp [Heap.link]) (.inl (hc.link h.nodup h.fresh_not_mem data)),?_,?_⟩
      · rw [addDbusSignal, hhead]
        simp only [Heap.read_some hn, hnp, ok_bind, Heap.modify_some hlast]
        rw [Heap.modify_some (by simp [hn])]
        rfl
      · simp [Heap.link, Heap.dataOf_set]
      · intro b hb
        simp [Heap.link, Heap.dataOf_set, hold b hb, Heap.dataOf_update]
    · -- the second link makes the first one part of a ring
      obtain ⟨rfl,rfl⟩ := List.cons.inj hl
      have hnp : node.prev = none := by simpa [Heap.prevOf, hn] using hprev
      have hring := Heap.path_pair (h := s.heap) (by simp [hn]) (hold a (by simp)) data
      refine ⟨⟨s.heap.pair a s.fresh data, s.fresh + 1, some a⟩,?_,
        h.extend rfl (fun b => by simp [Heap.pair]) (.inl hring),?_,?_⟩
      · simp [addDbusSignal, hhead, Heap.read_some hn, hnp, Heap.modify_some, hn, Heap.pair]
      · simp [Heap.pair, Heap.dataOf_set]
      · intro b hb
        simp [Heap.pair, Heap.dataOf_set, hold b hb, Heap.dataOf_update]

/-- `remove_dlink` of the only link. -/
lemma Dlinks.Holds.remove_only {s : Dlinks} {link : ℕ} (h : s.Holds [link]) :
    ∃ s', removeDlink s link = .ok s' ∧ s'.Holds [] := by
  have hhead : s.head = some link := h.head
  obtain ⟨node,hn⟩ := h.exists_node (List.mem_singleton_self link)
  refine ⟨{ s with heap := s.heap.erase link, head := none },?_,
    ⟨rfl,List.nodup_nil,fun b => ?_,by simp,.inl trivial⟩⟩
  · simp [removeDlink, hhead, Heap.release_some, hn]
  · simp [h.live b]

/-- `remove_dlink` of a link behind the head. -/
lemma Dlinks.Holds.remove_behind {s : Dlinks} {a link : ℕ} {p q : List ℕ}
    (h : s.Holds (a :: (p ++ link :: q))) :
    ∃ s', removeDlink s link = .ok s' ∧ s'.Holds (a :: (p ++ q)) := by
  have hnodup := h.nodup
  have hhead : s.head ≠ some link := by
    rw [h.head]
    simp only [List.head?_cons, ne_eq, Option.some.injEq]
    grind
  have hc : s.heap.Path a (p ++ link :: q) a := h.shape.resolve_right fun ⟨b,hb,_⟩ => by
    simp at hb
  obtain ⟨node,hn⟩ := h.exists_node (a := link) (by simp)
  obtain ⟨hp,hq⟩ := Heap.path_append.mp hc
  have hprev : node.prev = some (p.getLastD a) := by
    have := hp.prev_end
    rwa [Heap.prevOf, hn] at this
  have hnext : node.next = some (q.headD a) := by
    have := hq.next_start
    rwa [Heap.nextOf, hn] at this
  have hsl : link ≠ q.headD a := by cases q <;> grind
  refine ⟨{ s with heap := s.heap.unlink link (p.getLastD a) (q.headD a) },?_,
    ⟨h.head,by grind,fun b => ?_,fun b hb => h.bound b (by grind),.inl (hc.unlink hnodup)⟩⟩
  · have hsucc := Heap.isSome_of_prevOf hq.prev_first
    have hpred := Heap.isSome_of_nextOf hp.next_last
    have hn' : s.heap.update (q.headD a) (fun n => { n with prev := node.prev }) link = some node := by
      simp only [Heap.update, if_neg hsl, hn]
    rw [removeDlink, if_neg hhead, Heap.read_some hn, ok_bind, hnext, Heap.modify_some hsucc, ok_bind,
      Heap.read_some hn', ok_bind, hprev, hnext, Heap.modify_some (by rwa [Heap.isSome_update]), ok_bind,
      Heap.release_some (by simp [hn]), ok_bind]
    rfl
  · have := h.live b
    simp only [Heap.unlink, Heap.isSome_erase, Heap.isSome_update, this]
    grind

/-- `remove_dlink` takes its link out and leaves the order of the others, unless the link is the
head of others. -/
lemma Dlinks.Holds.remove {s : Dlinks} {l : List ℕ} (h : s.Holds l) {link : ℕ} (hl : link ∈ l)
    (hh : s.head ≠ some link ∨ l = [link]) :
    ∃ s', removeDlink s link = .ok s' ∧ s'.Holds (l.erase link) := by
  by_cases hlone : l = [link]
  · subst hlone
    simpa using h.remove_only
  · have hhead : s.head ≠ some link := hh.resolve_right hlone
    cases l with
    | nil => simp at hl
    | cons a m =>
      have hal : a ≠ link := fun heq => hhead (by rw [h.head, heq]; rfl)
      obtain ⟨p,q,rfl⟩ := List.append_of_mem ((List.mem_cons.mp hl).resolve_left hal.symm)
      have hlp : link ∉ p := by
        have hnodup := h.nodup
        grind
      rw [List.erase_cons_tail (by simpa using hal), List.erase_append_right _ hlp,
        List.erase_cons_head]
      exact h.remove_behind

/-- The list together with the links that were added and not yet removed or freed. -/
structure LinkRun where
  dlinks : Dlinks
  added : List ℕ

inductive LinkEvent
  | add (data : DbusLink)
  | remove (link : ℕ)
  | free

def linkStep (r : LinkRun) : LinkEvent → Outcome LinkRun
  | .add data => do
    let (new, dlinks) ← addDbusSignal r.dlinks data
    return ⟨dlinks, r.added ++ [new]⟩
  | .remove link => do
    let dlinks ← removeDlink r.dlinks link
    return ⟨dlinks, r.added.erase link⟩
  | .free => do
    let (dlinks, _) ← freeDlinks r.dlinks
    return ⟨dlinks, []⟩

/-- The list at the start of the broker. -/
def LinkRun.empty : LinkRun := ⟨⟨fun _ => none, 0, none⟩, []⟩

/-- The calls the routines agree about: a link that is removed is in the list and is not the head of
others, and a list that is freed is not a link that never had a neighbour. -/
def Agreed (r : LinkRun) : LinkEvent → Prop
  | .add _ => True
  | .remove link => link ∈ r.added ∧ (r.dlinks.head ≠ some link ∨ r.added = [link])
  | .free => ¬ Lone r.dlinks.heap r.added

lemma linkStep_holds {r : LinkRun} {e : LinkEvent} (h : r.dlinks.Holds r.added) (ha : Agreed r e) :
    ∃ r', linkStep r e = .ok r' ∧ r'.dlinks.Holds r'.added := by
  cases e with
  | add data =>
    obtain ⟨s,hs,hh,-⟩ := h.add data
    exact ⟨⟨s,r.added ++ [r.dlinks.fresh]⟩,by simp [linkStep, hs],hh⟩
  | remove link =>
    obtain ⟨s,hs,hh⟩ := h.remove ha.1 ha.2
    exact ⟨⟨s,r.added.erase link⟩,by simp [linkStep, hs],hh⟩
  | free =>
    obtain ⟨s,hs,hh⟩ := h.freeDlinks ha
    exact ⟨⟨s,[]⟩,by simp [linkStep, hs],hh⟩

lemma LinkRun.empty_holds : LinkRun.empty.dlinks.Holds LinkRun.empty.added where
  head := rfl
  nodup := List.nodup_nil
  live := by simp [LinkRun.empty]
  bound := by simp [LinkRun.empty]
  shape := .inl trivial

/-- After any sequence of calls the routines agree about, the list holds exactly the links added and
not yet removed or freed, in insertion order, as one closed ring or as a single link with NULL
neighbours; a traversal visits each of them once; and where the single link has neighbours,
`free_dlinks` ends and releases each of them once. -/
theorem links_ring {es : List LinkEvent} (hes : Meets linkStep Agreed LinkRun.empty es) :
    ∃ r, perform linkStep LinkRun.empty es = .ok r ∧ r.dlinks.head = r.added.head? ∧
      r.added.Nodup ∧ (Closed r.dlinks.heap r.added ∨ Lone r.dlinks.heap r.added) ∧
      visited r.dlinks = .ok r.added ∧
      (¬ Lone r.dlinks.heap r.added → ∃ s freed, freeDlinks r.dlinks = .ok (s, freed) ∧
        freed.Perm r.added ∧ s.head = none) := by
  obtain ⟨r,hr,hh⟩ := hes.progress (I := fun r => r.dlinks.Holds r.added)
    (fun _ _ h ha => linkStep_holds h ha) LinkRun.empty_holds
  refine ⟨r,hr,hh.head,hh.nodup,hh.shape,hh.visited_eq,fun hl => ?_⟩
  obtain ⟨s,hs,hempty⟩ := hh.freeDlinks hl
  refine ⟨s,_,hs,?_,hempty.head⟩
  cases r.added with
  | nil => exact .refl _
  | cons a l => exact List.perm_append_singleton a l

/-- Two subscriptions, the second one withdrawn, and the list freed. -/
def sampleLinkEvents : List LinkEvent :=
  [.add .server, .add (.client 7), .remove 1, .free]

theorem links_ring_sample : Meets linkStep Agreed LinkRun.empty sampleLinkEvents ∧
    ∃ r, perform linkStep LinkRun.empty sampleLinkEvents = .ok r ∧ visited r.dlinks = .ok r.added := by
  have hmeets : Meets linkStep Agreed LinkRun.empty sampleLinkEvents := by
    refine ⟨trivial,fun r₁ h₁ => ?_⟩
    obtain rfl := Except.ok.inj h₁
    refine ⟨trivial,fun r₂ h₂ => ?_⟩
    obtain rfl := Except.ok.inj h₂
    refine ⟨⟨by decide,.inl (by decide)⟩,fun r₃ h₃ => ?_⟩
    obtain rfl := Except.ok.inj h₃
    refine ⟨?_,fun r₄ _ => trivial⟩
    rintro ⟨a,ha,hnext,-⟩
    obtain rfl : 0 = a := (List.cons.inj ha).1
    revert hnext
    decide
  obtain ⟨r,hr,-,-,-,hv,-⟩ := links_ring hmeets
  exact ⟨hmeets,r,hr,hv⟩

/-- The first link of a list has no neighbours: it is not a ring of its own. -/
theorem first_link_not_closed :
    ∃ r, perform linkStep LinkRun.empty [.add .server] = .ok r ∧ r.added = [0] ∧
      ¬ Closed r.dlinks.heap r.added := by
  refine ⟨_,rfl,rfl,fun hc => ?_⟩
  have hnext : Heap.nextOf (α := DbusLink) _ 0 = some 0 := hc.1
  revert hnext
  decide

/-- The list of a link without neighbours cannot be freed: its `next` is followed. -/
theorem lone_link_stops_free : perform linkStep LinkRun.empty [.add .server, .free] = .error .null := rfl

/-- The head takes the others with it when it is removed: they stay in memory, and no list holds them. -/
theorem removed_head_loses_rest :
    ∃ r, perform linkStep LinkRun.empty [.add .server, .add (.client 7), .add (.client 8), .remove 0] = .ok r ∧
      r.added = [1, 2] ∧ visited r.dlinks = .ok [] ∧ (r.dlinks.heap 1).isSome ∧ (r.dlinks.heap 2).isSome :=
  ⟨_,rfl,rfl,rfl,rfl,rfl⟩

end Xctools.Broker
