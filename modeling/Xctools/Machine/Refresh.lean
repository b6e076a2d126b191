import Mathlib.Data.Set.Function
import Xctools.Machine.Outcome

/-! Refreshing a table. Each entry of a list owns one key of the table; the list is walked once, what
is found for an entry is stored under its key, and the entries whose stored value was another one
are collected in order. -/
namespace Xctools.Machine

section Refresh
universe u v
variable {κ : Type u} {α ι β : Type v} [DecidableEq ι] [DecidableEq β]
  (key : α → ι) (look : α → Except κ β)

/-- The walk: the table afterwards, and the entries that changed. -/
def refresh (m : ι → β) : List α → Except κ ((ι → β) × List α)
  | [] => .ok (m, [])
  | x :: l => do
    let b ← look x
    let (m', changed) ← refresh (Function.update m (key x) b) l
    return (m', if m (key x) = b then changed else x :: changed)

variable {key look} {m m' : ι → β} {l changed : List α}

theorem refresh_cons_eq_ok {x : α} (h : refresh key look m (x :: l) = .ok (m', changed)) :
    ∃ b changed', look x = .ok b ∧
      refresh key look (Function.update m (key x) b) l = .ok (m', changed') ∧
      changed = if m (key x) = b then changed' else x :: changed' := by
  obtain ⟨b,hb,h⟩ := bind_eq_ok.mp h
  obtain ⟨⟨m₁,changed'⟩,hl,h⟩ := bind_eq_ok.mp h
  obtain ⟨rfl,rfl⟩ := Prod.mk.inj (Except.ok.inj h)
  exact ⟨b,changed',hb,hl,rfl⟩

/-- Keys of no entry keep their value. -/
theorem refresh_frame (h : refresh key look m l = .ok (m', changed)) {i : ι}
    (hi : ∀ x ∈ l, key x ≠ i) : m' i = m i := by
  induction l generalizing m changed with
  | nil =>
    obtain ⟨rfl,-⟩ := Prod.mk.inj (Except.ok.inj h)
    rfl
  | cons x l ih =>
    obtain ⟨hx,hl⟩ := List.forall_mem_cons.mp hi
    obtain ⟨b,changed',-,hrest,-⟩ := refresh_cons_eq_ok h
    rw [ih hrest hl, Function.update_of_ne (Ne.symm hx)]

/-- Every entry finds its own value in the table afterwards. -/
theorem refresh_entry (hkey : Set.InjOn key {x | x ∈ l})
    (h : refresh key look m l = .ok (m', changed)) {x : α} (hx : x ∈ l) :
    look x = .ok (m' (key x)) := by
  induction l generalizing m changed with
  | nil => simp at hx
  | cons y l ih =>
    obtain ⟨b,changed',hb,hrest,-⟩ := refresh_cons_eq_ok h
    have hkey' : Set.InjOn key {x | x ∈ l} := hkey.mono fun _ => .tail _
    by_cases hxl : x ∈ l
    · exact ih hkey' hrest hxl
    · obtain rfl : x = y := (List.mem_cons.mp hx).resolve_right hxl
      have hout : ∀ z ∈ l, key z ≠ key x := fun z hz he =>
        hxl (hkey (.tail _ hz) hx he ▸ hz)
      rw [hb, refresh_frame hrest hout, Function.update_self]

/-- The entries collected are those whose value is another one afterwards, in their order. -/
theorem changed_eq_filter (hkey : Set.InjOn key {x | x ∈ l}) (hnodup : l.Nodup)
    (h : refresh key look m l = .ok (m', changed)) :
    changed = l.filter fun x => m (key x) ≠ m' (key x) := by
  induction l generalizing m changed with
  | nil =>
    obtain ⟨-,rfl⟩ := Prod.mk.inj (Except.ok.inj h)
    rfl
  | cons y l ih =>
    have hy := refresh_entry hkey h List.mem_cons_self
    obtain ⟨b,changed',hb,hrest,rfl⟩ := refresh_cons_eq_ok h
    have hb' : b = m' (key y) := by
      rw [hb] at hy
      exact Except.ok.inj hy
    obtain ⟨hyl,hl⟩ := List.nodup_cons.mp hnodup
    -- the update under the key of `y` is nothing to the other entries
    have hold : ∀ x ∈ l, Function.update m (key y) b (key x) = m (key x) := fun x hx =>
      Function.update_of_ne (fun he => hyl (hkey (.tail _ hx) List.mem_cons_self he ▸ hx)) _ _
    have hrec : changed' = l.filter fun x => m (key x) ≠ m' (key x) := by
      rw [ih (hkey.mono fun _ => .tail _) hl hrest]
      exact List.filter_congr fun x hx => by rw [hold x hx]
    rw [hrec, hb']
    by_cases hsame : m (key y) = m' (key y)
    · rw [if_pos hsame, List.filter_cons_of_neg (by simpa using hsame)]
    · rw [if_neg hsame, List.filter_cons_of_pos (by simpa using hsame)]

/-- The entries collected are those whose value is another one afterwards. -/
theorem mem_changed_iff (hkey : Set.InjOn key {x | x ∈ l}) (hnodup : l.Nodup)
    (h : refresh key look m l = .ok (m', changed)) {x : α} :
    x ∈ changed ↔ x ∈ l ∧ m (key x) ≠ m' (key x) := by
  rw [changed_eq_filter hkey hnodup h, List.mem_filter, decide_eq_true_eq]

/-- Storing `f x` under the key of every entry. -/
def storeAll (key : α → ι) (f : α → β) (m : ι → β) (l : List α) : ι → β :=
  l.foldl (fun m x => Function.update m (key x) (f x)) m

/-- That is a walk that always finds `f x`. -/
theorem refresh_ok (key : α → ι) (f : α → β) (m : ι → β) (l : List α) :
    ∃ changed, refresh key (fun x => (.ok (f x) : Except κ β)) m l =
      .ok (storeAll key f m l, changed) := by
  induction l generalizing m with
  | nil => exact ⟨[],rfl⟩
  | cons x l ih =>
    obtain ⟨changed,h⟩ := ih (Function.update m (key x) (f x))
    exact ⟨if m (key x) = f x then changed else x :: changed,by rw [refresh, ok_bind, h]; rfl⟩

theorem storeAll_frame {f : α → β} {i : ι} (hi : ∀ x ∈ l, key x ≠ i) :
    storeAll key f m l i = m i := by
  obtain ⟨_,h⟩ := refresh_ok (κ := Stop) key f m l
  exact refresh_frame h hi

theorem storeAll_entry {f : α → β} (hkey : Set.InjOn key {x | x ∈ l}) {x : α} (hx : x ∈ l) :
    storeAll key f m l (key x) = f x := by
  obtain ⟨_,h⟩ := refresh_ok (κ := Stop) key f m l
  exact (Except.ok.inj (refresh_entry hkey h hx)).symm

end Refresh

end Xctools.Machine
