import Mathlib.Logic.Function.Basic
import Xctools.Machine.Keyed
import Xctools.Xcpmd.Vars

/-! The write-through cache of `db-helper.c`. Variables come into the cache when they are added or first
looked up, they are overwritten in place, and they leave one at a time or all at once. What the cache
holds under a name is stated once for every function that touches it. -/
namespace Xctools.Xcpmd
open Machine

/-- What the C library makes of floats, what a long holds that was never set, and whether the bytes that stand behind a
value in its union are those behind the value of a variable: they are never set either. -/
structure Libc where
  scanFloat : String → UInt32
  printFloat : UInt32 → String
  unset : ℤ
  sameBehind : DbVar → Arg → Bool

/-- A C library that knows the float zero, on a stack of zeros. -/
def zeroLibc : Libc := ⟨fun _ => 0, fun _ => "0.000000", 0, fun _ _ => true⟩

section Cache
variable (libc : Libc) (parseArg : String → Option Arg)

/-- `arg_to_string`. -/
def argToString : Arg → String
  | .str s => "\"" ++ s ++ "\""
  | .int i => toString i
  | .bool b => if b then "t" else "f"
  | .float bits => libc.printFloat bits
  | .none => "none"
  | .var name => "$" ++ name

/-- `write_db_var`. -/
def writeDbVar (vars : VarStore) (name : String) (value : Arg) : VarStore :=
  { vars with db := Function.update vars.db name (some (argToString libc value)) }

/-- The cache with another value for a variable. -/
def overwrite (vars : VarStore) (name : String) (value : Arg) : VarStore :=
  { vars with cache := updateFirst DbVar.name name (fun var => { var with value }) vars.cache }

/-- The test of `add_var` for the value that a variable has: strings are compared, and else all bytes of the union. -/
def sameValue (var : DbVar) (value : Arg) : Bool :=
  var.value = value && (value.type = .str || libc.sameBehind var value)

/-- `add_var`: whether the variable is there with the value, the variables afterwards, and what is said
about it. -/
def addVar (vars : VarStore) (name : String) (value : Arg) : Bool × VarStore × String :=
  match lookupVar parseArg vars name with
  | (some var, vars') =>
    if var.value.type ≠ value.type then
      (false, vars', "Attempted to overwrite variable " ++ name ++
        ", but aborted due to type mismatch (was " ++ argTypeToString var.value.type.letter ++
        ", tried " ++ argTypeToString value.type.letter ++ ")")
    else if sameValue libc var value then (true, vars', "")
    else (true, writeDbVar libc (overwrite vars' name value) name value,
      "Variable " ++ name ++ " already exists--overwriting")
  | (none, vars') => (true, writeDbVar libc (cacheDbVar vars' name value) name value, "")

/-- `uncache_db_var`: nothing when there is no such variable or rules refer to it. -/
def uncacheDbVar (vars : VarStore) (name : String) : Option VarStore :=
  match vars.cache.find? fun var => var.name = name with
  | none => none
  | some var =>
    if var.refCount > 0 then none
    else some { vars with cache := vars.cache.eraseP fun var => var.name = name }

/-- `delete_db_var`. -/
def deleteDbVar (vars : VarStore) (name : String) : VarStore :=
  { vars with db := Function.update vars.db name none }

/-- `delete_var`. -/
def deleteVar (vars : VarStore) (name : String) : Bool × VarStore :=
  match uncacheDbVar vars name with
  | none => (false, vars)
  | some vars' => (true, deleteDbVar vars' name)

/-- `delete_cached_vars`. -/
def deleteCachedVars (vars : VarStore) : VarStore := { vars with cache := [] }

/-- `delete_db_vars`. -/
def deleteDbVars (vars : VarStore) : VarStore := { vars with db := fun _ => none }

/-- `delete_vars`. -/
def deleteVars (vars : VarStore) : VarStore := deleteDbVars (deleteCachedVars vars)

end Cache

section Cached
variable {libc : Libc} {parseArg : String → Option Arg} {vars : VarStore} {name : String} {value : Arg}

/-- What the cache holds under a name. -/
def VarStore.cached (vars : VarStore) (name : String) : Option DbVar := lookupKey DbVar.name name vars.cache

/-- The names in the cache are distinct. -/
def VarStore.Distinct (vars : VarStore) : Prop := (vars.cache.map DbVar.name).Nodup

lemma VarStore.name_of_cached {var : DbVar} (h : vars.cached name = some var) : var.name = name :=
  key_of_lookupKey h

lemma addRefs_eq (n : ℤ) (name : String) (l : List DbVar) : addRefs n name l =
    updateFirst DbVar.name name (fun var => { var with refCount := var.refCount + n }) l := by
  induction l with
  | nil => rfl
  | cons var l ih => rw [addRefs, updateFirst, ih]

/-- What `lookup_var` finds: what is cached, what the database holds under a name that is not cached, or
nothing. -/
lemma lookupVar_eq (parseArg : String → Option Arg) (vars : VarStore) (name : String) :
    lookupVar parseArg vars name =
      match vars.cached name with
      | some var => (some var, vars)
      | none =>
        if (getDbVar parseArg vars name).type = .none then (none, vars)
        else (some ⟨name, getDbVar parseArg vars name, 0⟩,
          cacheDbVar vars name (getDbVar parseArg vars name)) := rfl

lemma lookupVar_of_cached {var : DbVar} (h : vars.cached name = some var) :
    lookupVar parseArg vars name = (some var, vars) := by
  rw [lookupVar_eq, h]

lemma cached_cacheDbVar (h : vars.cached name = none) (m : String) :
    (cacheDbVar vars name value).cached m = if m = name then some ⟨name, value, 0⟩ else vars.cached m := by
  unfold VarStore.cached cacheDbVar
  rw [lookupKey_append_singleton]
  by_cases hm : m = name
  · subst hm
    simp [show lookupKey DbVar.name m vars.cache = none from h]
  · simp [hm, Ne.symm hm]

/-- Everything `lookup_var` can do. -/
lemma lookupVar_cases (parseArg : String → Option Arg) (vars : VarStore) (name : String) :
    (∃ var, vars.cached name = some var ∧ lookupVar parseArg vars name = (some var, vars)) ∨
    (vars.cached name = none ∧ lookupVar parseArg vars name = (none, vars)) ∨
    ∃ value, vars.cached name = none ∧ value = getDbVar parseArg vars name ∧ value.type ≠ .none ∧
      lookupVar parseArg vars name = (some ⟨name, value, 0⟩, cacheDbVar vars name value) := by
  rw [lookupVar_eq]
  cases hc : vars.cached name with
  | some var => exact .inl ⟨var,rfl,rfl⟩
  | none =>
    by_cases ht : (getDbVar parseArg vars name).type = .none
    · exact .inr (.inl ⟨rfl,if_pos ht⟩)
    · exact .inr (.inr ⟨_,rfl,rfl,ht,if_neg ht⟩)

/-- A variable that was found is cached from then on. -/
lemma cached_of_lookupVar {var : DbVar} {vars' : VarStore}
    (h : lookupVar parseArg vars name = (some var, vars')) : vars'.cached name = some var := by
  rcases lookupVar_cases parseArg vars name with ⟨v,hc,hl⟩ | ⟨-,hl⟩ | ⟨value,hc,-,-,hl⟩
  · rw [h] at hl
    obtain ⟨hv,rfl⟩ := Prod.mk.inj hl
    rw [hc, hv]
  · rw [h] at hl
    cases (Prod.mk.inj hl).1
  · rw [h] at hl
    obtain ⟨hv,rfl⟩ := Prod.mk.inj hl
    rw [cached_cacheDbVar hc, if_pos rfl, hv]

/-- What is cached stays so when a variable is looked up. -/
lemma cached_lookupVar_of_cached {m : String} {var : DbVar} (h : vars.cached m = some var) :
    (lookupVar parseArg vars name).2.cached m = some var := by
  rcases lookupVar_cases parseArg vars name with ⟨v,hc,hl⟩ | ⟨-,hl⟩ | ⟨value,hc,-,-,hl⟩
  · rw [hl]
    exact h
  · rw [hl]
    exact h
  · rw [hl, cached_cacheDbVar hc, if_neg, h]
    rintro rfl
    rw [hc] at h
    cases h

/-- A look-up depends on what the cache and the database hold under the name. -/
lemma lookupVar_congr {vars' : VarStore} (hcached : vars'.cached name = vars.cached name)
    (hdb : vars'.db name = vars.db name) : (lookupVar parseArg vars' name).1 = (lookupVar parseArg vars name).1 := by
  have hget : getDbVar parseArg vars' name = getDbVar parseArg vars name := by rw [getDbVar, getDbVar, hdb]
  rw [lookupVar_eq, lookupVar_eq, hcached, hget]
  cases vars.cached name with
  | some var => rfl
  | none =>
    dsimp only
    split_ifs <;> rfl

/-- A look-up changes nothing about what look-ups find. -/
lemma found_lookupVar (m : String) :
    (lookupVar parseArg (lookupVar parseArg vars name).2 m).1 = (lookupVar parseArg vars m).1 := by
  rcases lookupVar_cases parseArg vars name with ⟨v,-,hl⟩ | ⟨-,hl⟩ | ⟨value,hc,hvalue,htype,hl⟩
  · rw [hl]
  · rw [hl]
  · rw [hl]
    by_cases hm : m = name
    · subst hm
      rw [lookupVar_of_cached (by rw [cached_cacheDbVar hc, if_pos rfl]), hl]
    · exact lookupVar_congr (by rw [cached_cacheDbVar hc, if_neg hm]) rfl

/-- What can be found stays so when a variable is looked up. -/
lemma isSome_lookupVar_lookupVar {m : String} (h : (lookupVar parseArg vars m).1.isSome = true) :
    (lookupVar parseArg (lookupVar parseArg vars name).2 m).1.isSome = true := by
  rw [found_lookupVar]
  exact h

lemma cached_addRefs (n : ℤ) (m : String) :
    ({ vars with cache := addRefs n name vars.cache } : VarStore).cached m =
      if m = name then (vars.cached name).map fun var => { var with refCount := var.refCount + n }
      else vars.cached m := by
  unfold VarStore.cached
  rw [addRefs_eq]
  apply lookupKey_updateFirst
  exact fun _ => rfl

lemma cached_overwrite (m : String) : (overwrite vars name value).cached m =
    if m = name then (vars.cached name).map fun var => { var with value } else vars.cached m := by
  apply lookupKey_updateFirst
  exact fun _ => rfl

lemma VarStore.Distinct.cacheDbVar (h : vars.Distinct) (hc : vars.cached name = none) :
    (cacheDbVar vars name value).Distinct :=
  nodup_map_append_singleton h hc

lemma VarStore.Distinct.addRefs (h : vars.Distinct) (n : ℤ) (name : String) :
    ({ vars with cache := addRefs n name vars.cache } : VarStore).Distinct := by
  unfold VarStore.Distinct
  rw [addRefs_eq, map_key_updateFirst]
  · exact h
  · exact fun _ => rfl

lemma VarStore.Distinct.overwrite (h : vars.Distinct) (name : String) (value : Arg) :
    (overwrite vars name value).Distinct := by
  unfold VarStore.Distinct Xcpmd.overwrite
  rw [map_key_updateFirst]
  · exact h
  · exact fun _ => rfl

/-- Everything `delete_var` can do: it takes out an unreferenced variable, or nothing. -/
lemma deleteVar_cases (hd : vars.Distinct) (name : String) :
    (∃ var, vars.cached name = some var ∧ var.refCount ≤ 0 ∧ (deleteVar vars name).1 = true ∧
      (deleteVar vars name).2.Distinct ∧
      (∀ m, (deleteVar vars name).2.cached m = if m = name then none else vars.cached m) ∧
      (deleteVar vars name).2.db = Function.update vars.db name none) ∨
    ((∀ var, vars.cached name = some var → 0 < var.refCount) ∧ deleteVar vars name = (false, vars)) := by
  cases hc : vars.cached name with
  | none =>
    refine .inr ⟨fun var h => by simp at h,?_⟩
    unfold deleteVar uncacheDbVar
    rw [show vars.cache.find? (fun var => var.name = name) = none from hc]
  | some var =>
    have hfind : vars.cache.find? (fun var => var.name = name) = some var := hc
    by_cases href : var.refCount > 0
    · refine .inr ⟨fun v h => by rwa [← Option.some.inj h],?_⟩
      unfold deleteVar uncacheDbVar
      rw [hfind]
      simp only [if_pos href]
    · have heq : deleteVar vars name = (true, deleteDbVar
          { vars with cache := vars.cache.eraseP fun var => var.name = name } name) := by
        unfold deleteVar uncacheDbVar
        rw [hfind]
        simp only [if_neg href]
      rw [heq]
      refine .inl ⟨var,rfl,Int.not_lt.mp href,rfl,?_,fun m => lookupKey_eraseP hd m,rfl⟩
      exact hd.sublist (List.eraseP_sublist.map _)

lemma eq_of_sameValue {var : DbVar} (h : sameValue libc var value = true) : var.value = value := by
  rw [sameValue, Bool.and_eq_true, decide_eq_true_iff] at h
  exact h.1

/-- Everything `add_var` can do after the look-up: the variable stays as it is, it is new, or it gets
another value of its type. -/
lemma addVar_cases (libc : Libc) (parseArg : String → Option Arg) (vars : VarStore) (name : String)
    (value : Arg) :
    ((∃ var, (lookupVar parseArg vars name).2.cached name = some var ∧
        (var.value.type ≠ value.type ∧ (addVar libc parseArg vars name value).1 = false ∨
          var.value = value ∧ (addVar libc parseArg vars name value).1 = true)) ∧
      (addVar libc parseArg vars name value).2.1 = (lookupVar parseArg vars name).2) ∨
    (vars.cached name = none ∧ (addVar libc parseArg vars name value).1 = true ∧
      (addVar libc parseArg vars name value).2.1 =
        writeDbVar libc (cacheDbVar vars name value) name value) ∨
    (∃ var, (lookupVar parseArg vars name).2.cached name = some var ∧ var.value.type = value.type ∧
      (addVar libc parseArg vars name value).1 = true ∧
      (addVar libc parseArg vars name value).2.1 =
        writeDbVar libc (overwrite (lookupVar parseArg vars name).2 name value) name value) := by
  unfold addVar
  cases hl : lookupVar parseArg vars name with
  | mk found vars' =>
    cases found with
    | none =>
      rcases lookupVar_cases parseArg vars name with ⟨v,-,h⟩ | ⟨hc,h⟩ | ⟨w,-,-,-,h⟩
      · rw [hl] at h
        cases (Prod.mk.inj h).1
      · rw [hl] at h
        obtain ⟨-,rfl⟩ := Prod.mk.inj h
        exact .inr (.inl ⟨hc,rfl,rfl⟩)
      · rw [hl] at h
        cases (Prod.mk.inj h).1
    | some var =>
      have hc := cached_of_lookupVar hl
      by_cases ht : var.value.type ≠ value.type
      · simp only [if_pos ht]
        exact .inl ⟨⟨var,hc,.inl ⟨ht,trivial⟩⟩,trivial⟩
      · by_cases hv : sameValue libc var value = true
        · simp only [if_neg ht, if_pos hv]
          exact .inl ⟨⟨var,hc,.inr ⟨eq_of_sameValue hv,trivial⟩⟩,trivial⟩
        · simp only [if_neg ht, if_neg hv]
          exact .inr (.inr ⟨var,hc,not_not.mp ht,trivial,trivial⟩)

/-- `add_var` refuses a value of another type, -/
lemma addVar_refuses_iff : (addVar libc parseArg vars name value).1 = false ↔
    ∃ var, (lookupVar parseArg vars name).1 = some var ∧ var.value.type ≠ value.type := by
  unfold addVar
  rcases lookupVar parseArg vars name with ⟨_ | var,vars'⟩
  · simp
  · dsimp only
    split_ifs with htype hsame <;> simp_all

lemma append_ne_empty {s t : String} (h : s ≠ "") : s ++ t ≠ "" :=
  fun he => h (String.append_eq_empty_iff.mp he).1

/-- and has something to say about a value that the variable does not have. -/
lemma addVar_tells_iff : (addVar libc parseArg vars name value).2.2 ≠ "" ↔
    ∃ var, (lookupVar parseArg vars name).1 = some var ∧ sameValue libc var value = false := by
  unfold addVar
  rcases lookupVar parseArg vars name with ⟨_ | var,vars'⟩
  · simp
  · dsimp only
    split_ifs with htype hsame
    · refine iff_of_true ?_ ⟨var,rfl,?_⟩
      · exact append_ne_empty (append_ne_empty (append_ne_empty (append_ne_empty (append_ne_empty
          (append_ne_empty (by decide))))))
      · by_contra hsame
        exact htype (congrArg Arg.type (eq_of_sameValue (by simpa using hsame)))
    · simp [hsame]
    · exact iff_of_true (append_ne_empty (append_ne_empty (by decide))) ⟨var,rfl,by simpa using hsame⟩

/-- A value that is refused changes nothing about what look-ups find, -/
lemma lookupVar_addVar_of_refused (h : (addVar libc parseArg vars name value).1 = false) (m : String) :
    (lookupVar parseArg (addVar libc parseArg vars name value).2.1 m).1 = (lookupVar parseArg vars m).1 := by
  rcases addVar_cases libc parseArg vars name value with ⟨-,heq⟩ | ⟨-,htrue,-⟩ | ⟨var,-,-,htrue,-⟩
  · rw [heq, found_lookupVar]
  · rw [h] at htrue
    cases htrue
  · rw [h] at htrue
    cases htrue

/-- and one that is added only about its own variable. -/
lemma lookupVar_addVar_of_ne {m : String} (hm : m ≠ name) :
    (lookupVar parseArg (addVar libc parseArg vars name value).2.1 m).1 = (lookupVar parseArg vars m).1 := by
  rcases addVar_cases libc parseArg vars name value with ⟨-,heq⟩ | ⟨hc,-,heq⟩ | ⟨var,-,-,-,heq⟩
  · rw [heq, found_lookupVar]
  · rw [heq]
    refine lookupVar_congr ?_ (Function.update_of_ne hm ..)
    change (cacheDbVar vars name value).cached m = vars.cached m
    rw [cached_cacheDbVar hc, if_neg hm]
  · rw [heq, ← @found_lookupVar parseArg vars name m]
    refine lookupVar_congr ?_ (Function.update_of_ne hm ..)
    change (overwrite (lookupVar parseArg vars name).2 name value).cached m = _
    rw [cached_overwrite, if_neg hm]

/-- The references that are counted under a name. A variable that is not cached has none. -/
def VarStore.refs (vars : VarStore) (name : String) : ℤ := ((vars.cached name).map DbVar.refCount).getD 0

/-- What is new in the cache has no references. -/
lemma refs_lookupVar (m : String) : (lookupVar parseArg vars name).2.refs m = vars.refs m := by
  rcases lookupVar_cases parseArg vars name with ⟨v,-,hl⟩ | ⟨-,hl⟩ | ⟨value,hc,-,-,hl⟩
  · rw [hl]
  · rw [hl]
  · rw [hl, VarStore.refs, VarStore.refs, cached_cacheDbVar hc]
    split_ifs with hm
    · rw [hm, hc]
      rfl
    · rfl

/-- A count is changed if the variable is found, and it is the only one that changes. -/
lemma changeRef_found {n : ℤ} (h : (lookupVar parseArg vars name).1.isSome = true) :
    ∃ vars', changeRef parseArg n vars name = .ok vars' ∧
      (∀ m, vars'.refs m = vars.refs m + if m = name then n else 0) ∧
      ∀ m, (lookupVar parseArg vars' m).1.isSome = (lookupVar parseArg vars m).1.isSome := by
  obtain ⟨var,hvar⟩ := Option.isSome_iff_exists.mp h
  obtain ⟨vars₁,hl⟩ : ∃ vars₁, lookupVar parseArg vars name = (some var, vars₁) := ⟨_,Prod.ext hvar rfl⟩
  have hc := cached_of_lookupVar hl
  refine ⟨_,by rw [changeRef, hl],fun m => ?_,fun m => ?_⟩
  · have hrefs := @refs_lookupVar parseArg vars name m
    rw [hl] at hrefs
    rw [← hrefs, VarStore.refs, VarStore.refs, cached_addRefs]
    by_cases hm : m = name
    · rw [if_pos hm, if_pos hm, hm, hc]
      rfl
    · rw [if_neg hm, if_neg hm, Int.add_zero]
  · have hfound := @found_lookupVar parseArg vars name m
    rw [hl] at hfound
    rw [← hfound]
    by_cases hm : m = name
    · rw [lookupVar_eq, cached_addRefs, if_pos hm, hc, hm, lookupVar_of_cached hc]
      rfl
    · exact congrArg Option.isSome (lookupVar_congr (by rw [cached_addRefs, if_neg hm]) rfl)

/-- Counts are changed if all the variables are found. -/
lemma changeRefs_found (n : ℤ) {l : List String} (h : ∀ m ∈ l, (lookupVar parseArg vars m).1.isSome = true) :
    ∃ vars', l.foldlM (changeRef parseArg n) vars = .ok vars' ∧ (∀ m, vars'.refs m = vars.refs m + n * l.count m) ∧
      ∀ m, (lookupVar parseArg vars' m).1.isSome = (lookupVar parseArg vars m).1.isSome := by
  induction l generalizing vars with
  | nil => exact ⟨vars,rfl,fun m => by simp,fun m => rfl⟩
  | cons name l ih =>
    obtain ⟨hname,hl⟩ := List.forall_mem_cons.mp h
    obtain ⟨vars₁,h₁,hrefs₁,hfound₁⟩ := changeRef_found (n := n) hname
    have hl₁ : ∀ m ∈ l, (lookupVar parseArg vars₁ m).1.isSome = true := fun m hm => (hfound₁ m).trans (hl m hm)
    obtain ⟨vars',h',hrefs',hfound'⟩ := ih hl₁
    refine ⟨vars',by rw [List.foldlM_cons, h₁, ok_bind, h'],fun m => ?_,fun m => (hfound' m).trans (hfound₁ m)⟩
    rw [hrefs', hrefs₁, List.count_cons]
    by_cases hm : m = name
    · rw [if_pos hm, if_pos (by simp [hm]), Int.natCast_add, Int.natCast_one, Int.mul_add, Int.mul_one]
      omega
    · rw [if_neg hm, if_neg (by simpa using Ne.symm hm)]
      simp

end Cached

end Xctools.Xcpmd
