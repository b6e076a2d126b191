import Mathlib.Data.Nat.Find
import Mathlib.Data.List.Basic
import Mathlib.Tactic.NormNum

/-! The walk through the SMBIOS table, `platform.c`. The table is mapped memory of a length that the firmware
gives; a structure has its length in its second byte, and its strings behind it end with two null bytes. The
walk is kept with the offsets it reads, which may be beyond the table. -/
namespace Xctools.Xcpmd

section Table

/-- What an entry point says of a table, and the memory from its address on. -/
structure SmbiosLocator where
  physAddr : ℕ
  length : ℕ
  count : ℕ
  addr : ℕ → UInt8
  long : 4 ≤ length
  counted : count ≠ 0

/-- A word of an entry point, least significant byte first. -/
def entryWord (entry : ℕ → UInt8) (bytes offset : ℕ) : ℕ :=
  (List.range bytes).foldr (fun i n => (entry (offset + i)).toNat + 256 * n) 0

/-- The sum of the first bytes. -/
def checksum (entry : ℕ → UInt8) (n : ℕ) : UInt8 := (List.range n).foldl (fun cs i => cs + entry i) 0

/-- `smbios_entry_point`. -/
def smbiosEntryPoint (mapPhysMem : ℕ → ℕ → Option (ℕ → UInt8)) (entryPoint : ℕ → UInt8) (isEps : Bool) :
    Option SmbiosLocator :=
  let entry := if isEps then fun i => entryPoint (16 + i) else entryPoint
  if isEps ∧ (checksum entryPoint (entryPoint 5).toNat ≠ 0 ∨ (List.range 5).map entry ≠ [95, 68, 77, 73, 95]) then none
  else if checksum entry 15 ≠ 0 then none
  else
    let physAddr := entryWord entry 4 8
    let length := entryWord entry 2 6
    let count := entryWord entry 2 12
    if h : length < 4 ∨ count = 0 then none
    else (mapPhysMem physAddr length).map fun addr =>
      ⟨physAddr, length, count, addr, by omega, by omega⟩

lemma entryWord_lt (entry : ℕ → UInt8) (offset : ℕ) : entryWord entry 2 offset < 2 ^ 16 := by
  have hlow := (entry (offset + 0)).toNat_lt
  have hhigh := (entry (offset + 1)).toNat_lt
  simp only [entryWord, List.range_succ, List.range_zero, List.nil_append, List.cons_append, List.foldr_cons,
    List.foldr_nil]
  omega

/-- `SMBIOS_TYPE_EOT`. -/
def smbiosTypeEot : UInt8 := 127

/-- The offsets that were read, and the structure that was found with its length. -/
structure Walk where
  reads : List ℕ
  found : Option (ℕ × ℕ)

/-- The loop that runs the tail past the strings of a structure: what it reads, and how far the tail gets. The
second byte is read if the first one is null. -/
def tailScan (addr : ℕ → UInt8) (ptr : ℕ) : ℕ → ℕ → List ℕ × ℕ
  | 0, d => ([],d)
  | n + 1, d =>
    if addr (ptr + d) = 0 then
      if addr (ptr + d + 1) = 0 then ([ptr + d, ptr + d + 1],d)
      else
        let r := tailScan addr ptr n (d + 1)
        ((ptr + d) :: (ptr + d + 1) :: r.1,r.2)
    else
      let r := tailScan addr ptr n (d + 1)
      ((ptr + d) :: r.1,r.2)

variable (loc : SmbiosLocator) (type : UInt8) (inst : ℕ)

/-- The length byte of a structure. -/
def SmbiosLocator.size (p : ℕ) : ℕ := (loc.addr (p + 1)).toNat

/-- The structure that is looked for, `k` of its type having been passed. -/
def Requested (p k : ℕ) : Prop := loc.addr p = type ∧ k + 1 = inst

instance (p k : ℕ) : Decidable (Requested loc type inst p k) := inferInstanceAs (Decidable (_ ∧ _))

/-- `smbios_locate_structure_instance` from a structure on, with so many left. -/
def locateFrom : ℕ → ℕ → ℕ → Walk
  | 0, _, _ => ⟨[],none⟩
  | n + 1, p, k =>
    if loc.size p < 4 ∨ loc.length < loc.size p then ⟨[p + 1],none⟩
    else
      let scan := tailScan loc.addr p (loc.length - 1 - loc.size p) (loc.size p)
      let reads := (p + 1) :: scan.1 ++ [p]
      if Requested loc type inst p k then ⟨reads,some (p,scan.2 + 2)⟩
      else if loc.addr p = smbiosTypeEot ∧ n ≠ 0 then ⟨reads,none⟩
      else
        let rest := locateFrom n (p + scan.2 + 2) (if loc.addr p = type then k + 1 else k)
        ⟨reads ++ rest.reads,rest.found⟩

/-- `smbios_locate_structure_instance`. -/
def smbiosLocateStructureInstance : Walk := locateFrom loc type inst loc.count 0 0

end Table

section Scan
variable {addr : ℕ → UInt8} {ptr n d k o : ℕ}

/-- Two null bytes. -/
def DoubleNul (addr : ℕ → UInt8) (o : ℕ) : Prop := addr o = 0 ∧ addr (o + 1) = 0

/-- The scan ends with the first two null bytes, and reads both. -/
lemma tailScan_of_first (hk : k < n) (hnul : DoubleNul addr (ptr + d + k))
    (hfirst : ∀ j < k, ¬ DoubleNul addr (ptr + d + j)) : (tailScan addr ptr n d).2 = d + k ∧
      (∀ o ∈ (tailScan addr ptr n d).1, o ≤ ptr + d + k + 1) ∧ ptr + d + k + 1 ∈ (tailScan addr ptr n d).1 := by
  induction k generalizing n d with
  | zero =>
    obtain ⟨n,rfl⟩ := Nat.exists_eq_succ_of_ne_zero (Nat.ne_of_gt hk)
    obtain ⟨hzero,hnext⟩ := hnul
    rw [Nat.add_zero] at hzero hnext
    rw [tailScan, if_pos hzero, if_pos hnext]
    refine ⟨rfl,fun o ho => ?_,by simp⟩
    simp only [List.mem_cons, List.not_mem_nil, or_false] at ho
    omega
  | succ k ih =>
    obtain ⟨n,rfl⟩ := Nat.exists_eq_succ_of_ne_zero (Nat.ne_of_gt (Nat.zero_lt_of_lt hk))
    have hnot : ¬ DoubleNul addr (ptr + d) := hfirst 0 (Nat.succ_pos k)
    have hshift : ∀ j, ptr + (d + 1) + j = ptr + d + (j + 1) := fun j => by omega
    obtain ⟨hend,hreads,hlast⟩ := @ih n (d + 1) (by omega) (by rw [hshift]; exact hnul)
      (fun j hj => by rw [hshift]; exact hfirst (j + 1) (by omega))
    rw [tailScan]
    split_ifs with hzero hnext
    · exact absurd ⟨hzero,hnext⟩ hnot
    · refine ⟨by dsimp only; omega,fun o ho => ?_,?_⟩
      · simp only [List.mem_cons] at ho
        rcases ho with rfl | rfl | ho
        · omega
        · omega
        · have := hreads o ho
          omega
      · rw [hshift] at hlast
        exact List.mem_cons_of_mem _ (List.mem_cons_of_mem _ hlast)
    · refine ⟨by dsimp only; omega,fun o ho => ?_,?_⟩
      · rcases List.mem_cons.mp ho with rfl | ho
        · omega
        · have := hreads o ho
          omega
      · rw [hshift] at hlast
        exact List.mem_cons_of_mem _ hlast

/-- Without two null bytes the scan goes on to its bound. -/
lemma tailScan_of_none (h : ∀ j < n, ¬ DoubleNul addr (ptr + d + j)) : (tailScan addr ptr n d).2 = d + n ∧
    (∀ o ∈ (tailScan addr ptr n d).1, o ≤ ptr + d + n) ∧
    (0 < n → ptr + d + n - 1 ∈ (tailScan addr ptr n d).1) := by
  induction n generalizing d with
  | zero => exact ⟨rfl,by simp [tailScan],fun h => absurd h (Nat.lt_irrefl 0)⟩
  | succ n ih =>
    have hshift : ∀ j, ptr + (d + 1) + j = ptr + d + (j + 1) := fun j => by omega
    have hnot : ¬ DoubleNul addr (ptr + d) := h 0 (Nat.succ_pos n)
    obtain ⟨hend,hreads,hlast⟩ := @ih (d + 1) (fun j hj => by rw [hshift]; exact h (j + 1) (by omega))
    have hmem : ∀ l : List ℕ, (0 < n → ptr + (d + 1) + n - 1 ∈ l) → ptr + d + (n + 1) - 1 ∈ (ptr + d) :: l := by
      intro l hl
      rcases Nat.eq_zero_or_pos n with rfl | hpos
      · exact List.mem_cons_self
      · have heq : ptr + d + (n + 1) - 1 = ptr + (d + 1) + n - 1 := by omega
        rw [heq]
        exact List.mem_cons_of_mem _ (hl hpos)
    rw [tailScan]
    split_ifs with hzero hnext
    · exact absurd ⟨hzero,hnext⟩ hnot
    · refine ⟨by dsimp only; omega,fun o ho => ?_,fun _ => hmem _ fun hpos => List.mem_cons_of_mem _ (hlast hpos)⟩
      simp only [List.mem_cons] at ho
      rcases ho with rfl | rfl | ho
      · omega
      · omega
      · have := hreads o ho
        omega
    · refine ⟨by dsimp only; omega,fun o ho => ?_,fun _ => hmem _ hlast⟩
      rcases List.mem_cons.mp ho with rfl | ho
      · omega
      · have := hreads o ho
        omega

end Scan

section Enclosed
variable (loc : SmbiosLocator) (type : UInt8) (inst : ℕ)

/-- The structure at `p` has its two null bytes at `e`: the first ones behind its formatted area, inside the table. -/
structure Complete (p e : ℕ) : Prop where
  behind : loc.size p ≤ e
  nul : DoubleNul loc.addr (p + e)
  first : ∀ j, loc.size p ≤ j → j < e → ¬ DoubleNul loc.addr (p + j)
  inside : p + e + 1 < loc.length

/-- All reads are in the table, and what is found is a structure of the table with its two null bytes. -/
structure Inside (w : Walk) : Prop where
  reads : ∀ o ∈ w.reads, o < loc.length
  found : ∀ p n, w.found = some (p,n) → p + n ≤ loc.length ∧ ∃ e, n = e + 2 ∧ Complete loc p e

/-- The structures from `p` on are in the table as far as the walk comes: each has its header there, and is either
one that makes the walk give up by its length, or complete, or one that the walk ends with, whose strings are not
looked for beyond the table. -/
def Enclosed : ℕ → ℕ → ℕ → Prop
  | 0, _, _ => True
  | n + 1, p, k => p + 1 < loc.length ∧ (4 ≤ loc.size p → loc.size p ≤ loc.length →
      (∃ e, Complete loc p e ∧ (Requested loc type inst p k ∨ loc.addr p = smbiosTypeEot ∨
        Enclosed n (p + e + 2) (if loc.addr p = type then k + 1 else k))) ∨
      (p = 0 ∨ loc.length ≤ loc.size p + 1) ∧ ¬ Requested loc type inst p k ∧
        (n = 0 ∨ loc.addr p = smbiosTypeEot))

variable {loc type inst} {n p k e e' : ℕ}

lemma Complete.unique (h : Complete loc p e) (h' : Complete loc p e') : e = e' := by
  rcases lt_trichotomy e e' with hlt | heq | hgt
  · exact absurd h.nul (h'.first e h.behind hlt)
  · exact heq
  · exact absurd h'.nul (h.first e' h'.behind hgt)

lemma inside_none {reads : List ℕ} : Inside loc ⟨reads,none⟩ ↔ ∀ o ∈ reads, o < loc.length :=
  ⟨fun h => h.reads,fun h => ⟨h,fun p n hfound => by cases hfound⟩⟩

lemma inside_append {reads : List ℕ} {w : Walk} :
    Inside loc ⟨reads ++ w.reads,w.found⟩ ↔ (∀ o ∈ reads, o < loc.length) ∧ Inside loc w := by
  constructor
  · intro h
    obtain ⟨hreads,hrest⟩ := List.forall_mem_append.mp h.reads
    exact ⟨hreads,hrest,h.found⟩
  · rintro ⟨hreads,hw⟩
    exact ⟨List.forall_mem_append.mpr ⟨hreads,hw.reads⟩,hw.found⟩

/-- What is found has its two null bytes where the tail stops. -/
lemma inside_some {reads : List ℕ} : Inside loc ⟨reads,some (p,e + 2)⟩ ↔
    (∀ o ∈ reads, o < loc.length) ∧ Complete loc p e := by
  constructor
  · intro h
    obtain ⟨-,e',he,hcomplete⟩ := h.found p (e + 2) rfl
    obtain rfl : e = e' := by omega
    exact ⟨h.reads,hcomplete⟩
  · rintro ⟨hreads,hcomplete⟩
    refine ⟨hreads,fun q n hfound => ?_⟩
    obtain ⟨rfl,rfl⟩ := Prod.mk.inj (Option.some.inj hfound)
    have hinside := hcomplete.inside
    exact ⟨by omega,e,rfl,hcomplete⟩

/-- What the walk makes of one structure. -/
lemma inside_locateFrom_iff {scan : List ℕ × ℕ} (hsize : 4 ≤ loc.size p) (hlength : loc.size p ≤ loc.length)
    (hscan : tailScan loc.addr p (loc.length - 1 - loc.size p) (loc.size p) = scan) :
    Inside loc (locateFrom loc type inst (n + 1) p k) ↔ (p + 1 < loc.length ∧ ∀ o ∈ scan.1, o < loc.length) ∧
      if Requested loc type inst p k then Complete loc p scan.2
      else loc.addr p = smbiosTypeEot ∧ n ≠ 0 ∨
        Inside loc (locateFrom loc type inst n (p + scan.2 + 2) (if loc.addr p = type then k + 1 else k)) := by
  have hreads : (∀ o ∈ (p + 1) :: scan.1 ++ [p], o < loc.length) ↔
      p + 1 < loc.length ∧ ∀ o ∈ scan.1, o < loc.length := by
    rw [List.forall_mem_append, List.forall_mem_cons, List.forall_mem_singleton]
    exact ⟨And.left,fun h => ⟨h,Nat.lt_of_succ_lt h.1⟩⟩
  rw [locateFrom, if_neg (by omega), hscan]
  dsimp only
  by_cases hrequested : Requested loc type inst p k
  · rw [if_pos hrequested, if_pos hrequested, inside_some, hreads]
  · rw [if_neg hrequested, if_neg hrequested]
    by_cases hend : loc.addr p = smbiosTypeEot ∧ n ≠ 0
    · rw [if_pos hend, inside_none, hreads]
      exact (and_iff_left (.inl hend)).symm
    · rw [if_neg hend, inside_append, hreads, or_iff_right hend]

/-- A walk begins with the length byte. -/
lemma lt_of_inside (h : Inside loc (locateFrom loc type inst (n + 1) p k)) : p + 1 < loc.length := by
  by_cases hstops : loc.size p < 4 ∨ loc.length < loc.size p
  · rw [locateFrom, if_pos hstops, inside_none] at h
    exact h (p + 1) (List.mem_singleton_self _)
  · exact ((inside_locateFrom_iff (by omega) (by omega) rfl).mp h).1.1

lemma inside_zero : Inside loc (locateFrom loc type inst 0 p k) :=
  inside_none.mpr (by simp)

/-- The scan stops where a complete structure ends. -/
lemma scan_of_complete (h : Complete loc p e) :
    (tailScan loc.addr p (loc.length - 1 - loc.size p) (loc.size p)).2 = e ∧
      ∀ o ∈ (tailScan loc.addr p (loc.length - 1 - loc.size p) (loc.size p)).1, o < loc.length := by
  obtain ⟨i,rfl⟩ := Nat.exists_eq_add_of_le h.behind
  have hinside := h.inside
  obtain ⟨hend,hreads,-⟩ := @tailScan_of_first loc.addr p (loc.length - 1 - loc.size p) (loc.size p) i (by omega)
    (by rw [Nat.add_assoc]; exact h.nul) fun j hj => by
      rw [Nat.add_assoc]
      exact h.first _ (Nat.le_add_right _ _) (Nat.add_lt_add_left hj _)
  refine ⟨hend,fun o ho => ?_⟩
  have hle := hreads o ho
  omega

/-- Two null bytes that the scan comes to are in the table, or one of them is read beyond it. -/
lemma complete_of_scan {i : ℕ} (hi : i < loc.length - 1 - loc.size p) (hnul : DoubleNul loc.addr (p + loc.size p + i))
    (hinside : p = 0 ∨ ∀ o ∈ (tailScan loc.addr p (loc.length - 1 - loc.size p) (loc.size p)).1, o < loc.length) :
    ∃ e, Complete loc p e := by
  classical
  have hex : ∃ i, DoubleNul loc.addr (p + loc.size p + i) := ⟨i,hnul⟩
  have hle : Nat.find hex ≤ i := Nat.find_min' hex hnul
  obtain ⟨-,-,hlast⟩ := @tailScan_of_first loc.addr p (loc.length - 1 - loc.size p) (loc.size p) (Nat.find hex)
    (by omega) (Nat.find_spec hex) fun j hj => Nat.find_min hex hj
  refine ⟨loc.size p + Nat.find hex,Nat.le_add_right _ _,?_,fun j hj hlt hj' => ?_,?_⟩
  · rw [← Nat.add_assoc]
    exact Nat.find_spec hex
  · obtain ⟨j,rfl⟩ := Nat.exists_eq_add_of_le hj
    rw [← Nat.add_assoc] at hj'
    exact Nat.find_min hex (by omega) hj'
  · rcases hinside with rfl | hinside
    · omega
    · have hlt := hinside _ hlast
      omega

/-- Otherwise it goes on to its bound, which is in the table for the first structure only. -/
lemma scan_of_incomplete (hnone : ¬ ∃ e, Complete loc p e) (hp : p = 0 ∨ 2 ≤ p) :
    ((∀ o ∈ (tailScan loc.addr p (loc.length - 1 - loc.size p) (loc.size p)).1, o < loc.length) ↔
      p = 0 ∨ loc.length ≤ loc.size p + 1) ∧
    ((p = 0 ∨ loc.length ≤ loc.size p + 1) →
      loc.length ≤ (tailScan loc.addr p (loc.length - 1 - loc.size p) (loc.size p)).2 + 1) := by
  have hfree : (p = 0 ∨ ∀ o ∈ (tailScan loc.addr p (loc.length - 1 - loc.size p) (loc.size p)).1, o < loc.length) →
      ∀ j < loc.length - 1 - loc.size p, ¬ DoubleNul loc.addr (p + loc.size p + j) :=
    fun hinside j hj hnul => hnone (complete_of_scan hj hnul hinside)
  have hgo : (p = 0 ∨ loc.length ≤ loc.size p + 1) → ∀ j < loc.length - 1 - loc.size p,
      ¬ DoubleNul loc.addr (p + loc.size p + j) := by
    rintro (hzero | hfull) j hj
    · exact hfree (.inl hzero) j hj
    · omega
  refine ⟨⟨fun hinside => ?_,fun hbound o ho => ?_⟩,fun hbound => ?_⟩
  · by_contra hout
    rw [not_or] at hout
    obtain ⟨-,-,hlast⟩ := tailScan_of_none (hfree (.inr hinside))
    have hlt := hinside _ (hlast (by omega))
    omega
  · obtain ⟨-,hreads,-⟩ := tailScan_of_none (hgo hbound)
    rcases Nat.eq_zero_or_pos (loc.length - 1 - loc.size p) with hnil | hpos
    · rw [hnil] at ho
      cases ho
    · have hle := hreads o ho
      omega
  · rw [(tailScan_of_none (hgo hbound)).1]
    omega

/-- The walk stays inside the table exactly if the structures do. -/
lemma inside_iff_enclosed (hp : p = 0 ∨ 2 ≤ p) :
    Inside loc (locateFrom loc type inst n p k) ↔ Enclosed loc type inst n p k := by
  induction n generalizing p k with
  | zero => exact iff_of_true inside_zero trivial
  | succ n ih =>
    by_cases hhead : p + 1 < loc.length
    swap
    · exact iff_of_false (fun h => hhead (lt_of_inside h)) fun h => hhead h.1
    rw [Enclosed, and_iff_right hhead]
    by_cases hstops : loc.size p < 4 ∨ loc.length < loc.size p
    · rw [locateFrom, if_pos hstops, inside_none, List.forall_mem_singleton]
      exact iff_of_true hhead fun _ _ => by omega
    have hsize : 4 ≤ loc.size p := by omega
    have hlength : loc.size p ≤ loc.length := by omega
    rw [imp_iff_right hsize, imp_iff_right hlength, inside_locateFrom_iff hsize hlength rfl, and_iff_right hhead]
    by_cases hcomplete : ∃ e, Complete loc p e
    · obtain ⟨e,he⟩ := hcomplete
      have hinside := he.inside
      obtain ⟨hend,hreads⟩ := scan_of_complete he
      rw [hend, and_iff_right hreads]
      have hexists : (∃ e, Complete loc p e ∧ (Requested loc type inst p k ∨ loc.addr p = smbiosTypeEot ∨
            Enclosed loc type inst n (p + e + 2) (if loc.addr p = type then k + 1 else k))) ↔
          Requested loc type inst p k ∨ loc.addr p = smbiosTypeEot ∨
            Enclosed loc type inst n (p + e + 2) (if loc.addr p = type then k + 1 else k) :=
        ⟨fun ⟨e',he',h⟩ => he.unique he' ▸ h,fun h => ⟨e,he,h⟩⟩
      rw [hexists, ← ih (.inr (by omega))]
      by_cases hrequested : Requested loc type inst p k
      · simp [hrequested, he]
      · rcases Nat.eq_zero_or_pos n with rfl | hpos
        · exact iff_of_true (by simp [hrequested, inside_zero]) (.inl (.inr (.inr inside_zero)))
        · have hne : n ≠ 0 := Nat.ne_of_gt hpos
          rw [if_neg hrequested]
          constructor
          · rintro (⟨hlast,-⟩ | hrest)
            · exact .inl (.inr (.inl hlast))
            · exact .inl (.inr (.inr hrest))
          · rintro ((h | h | h) | ⟨-,-,h | h⟩)
            · exact absurd h hrequested
            · exact .inl ⟨h,hne⟩
            · exact .inr h
            · exact absurd h hne
            · exact .inl ⟨h,hne⟩
    · obtain ⟨hreads,hbound⟩ := scan_of_incomplete hcomplete hp
      have hnone : ∀ Q : ℕ → Prop, ¬ ∃ e, Complete loc p e ∧ Q e := fun Q ⟨e,he,_⟩ => hcomplete ⟨e,he⟩
      rw [hreads, or_iff_right (hnone _), and_congr_right_iff]
      intro hlast
      -- behind such a structure nothing is left of the table
      have hrest : ∀ k', Inside loc (locateFrom loc type inst n
          (p + (tailScan loc.addr p (loc.length - 1 - loc.size p) (loc.size p)).2 + 2) k') ↔ n = 0 := by
        intro k'
        have hbeyond := hbound hlast
        constructor
        · intro h
          rcases n with _ | n
          · rfl
          · have hlt := lt_of_inside h
            omega
        · rintro rfl
          exact inside_zero
      have hfound : ¬ Complete loc p (tailScan loc.addr p (loc.length - 1 - loc.size p) (loc.size p)).2 :=
        fun h => hcomplete ⟨_,h⟩
      rw [hrest]
      by_cases hrequested : Requested loc type inst p k
      · simp [hrequested, hfound]
      · simp only [hrequested, if_false, not_false_eq_true, true_and]
        rw [or_comm, or_and_left, and_iff_left (em (n = 0))]

/-- For every table and count that an entry point gives, and every type and instance: all that
`smbios_locate_structure_instance` reads is in the table, and what it returns is there up to its two null bytes,
exactly if the structures the walk comes to are enclosed in the table. -/
theorem smbios_walk_inside_iff (loc : SmbiosLocator) (type : UInt8) (inst : ℕ) :
    Inside loc (smbiosLocateStructureInstance loc type inst) ↔ Enclosed loc type inst loc.count 0 0 :=
  inside_iff_enclosed (.inl rfl)

/-- What `smbios_entry_point` gives is memory that was mapped for the table, at the address and of the length that
the entry point states; the walk leaves the mapping exactly if the structures do. -/
theorem mapped_walk_inside_iff {mapPhysMem : ℕ → ℕ → Option (ℕ → UInt8)} {entryPoint : ℕ → UInt8} {isEps : Bool}
    {loc : SmbiosLocator} (h : smbiosEntryPoint mapPhysMem entryPoint isEps = some loc) (type : UInt8) (inst : ℕ) :
    (mapPhysMem loc.physAddr loc.length = some loc.addr ∧ loc.length < 2 ^ 16 ∧ loc.count < 2 ^ 16) ∧
    (Inside loc (smbiosLocateStructureInstance loc type inst) ↔ Enclosed loc type inst loc.count 0 0) := by
  refine ⟨?_,inside_iff_enclosed (.inl rfl)⟩
  unfold smbiosEntryPoint at h
  dsimp only at h
  split_ifs at h
  all_goals
    obtain ⟨addr,hmapped,rfl⟩ := Option.map_eq_some_iff.mp h
    exact ⟨hmapped,entryWord_lt _ _,entryWord_lt _ _⟩

/-- Two structures; the strings of the second one are looked for behind the table. -/
def cutTable : SmbiosLocator where
  physAddr := 0
  length := 10
  count := 2
  addr o := [0, 4, 1, 0, 0, 0, 1, 4, 2, 0][o]?.getD 255
  long := by decide
  counted := by decide

/-- The walk reads behind the table, and gives the second structure out with a length that leaves the table. -/
theorem smbios_walk_leaves_table :
    (smbiosLocateStructureInstance cutTable 1 1).reads = [1, 4, 5, 0, 7, 10, 11, 12, 13, 14, 6] ∧
    (smbiosLocateStructureInstance cutTable 1 1).found = some (6,11) ∧
    ¬ Inside cutTable (smbiosLocateStructureInstance cutTable 1 1) := by
  have hreads : (smbiosLocateStructureInstance cutTable 1 1).reads = [1, 4, 5, 0, 7, 10, 11, 12, 13, 14, 6] := by
    decide +kernel
  refine ⟨hreads,by decide +kernel,fun h => ?_⟩
  have hlt := h.reads 10 (by rw [hreads]; decide)
  exact absurd hlt (by decide)

end Enclosed

end Xctools.Xcpmd
