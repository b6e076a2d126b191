import Xctools.Xcpmd.Daemon

/-! Reference counts of variables. A cached variable counts how often the loaded rules name it, and a
variable that some rule names is cached and keeps its type. Each function that touches the variables
keeps the account; the requests of the daemon are made of these functions. -/
namespace Xctools.Xcpmd
open Machine

section Account
variable {libc : Libc} {parseArg : String → Option Arg} {vars vars' : VarStore} {names : List String}
  {name : String} {value : Arg}

/-- The type a cached variable has. -/
def VarStore.typeOf (vars : VarStore) (name : String) : ArgType :=
  ((vars.cached name).map fun var => var.value.type).getD .none

/-- The cache accounts for a list of names. -/
structure Counted (names : List String) (vars : VarStore) : Prop where
  distinct : vars.Distinct
  count : ∀ m var, vars.cached m = some var → var.refCount = names.count m
  cached : ∀ m ∈ names, (vars.cached m).isSome = true

lemma counted_nil (h : vars.cache = []) : Counted [] vars := by
  refine ⟨by simp [VarStore.Distinct, h],fun m var hvar => ?_,by simp⟩
  simp [VarStore.cached, h] at hvar

lemma Counted.perm {names' : List String} (h : Counted names vars) (hp : names.Perm names') :
    Counted names' vars where
  distinct := h.distinct
  count m var hvar := by rw [h.count m var hvar, hp.count_eq]
  cached m hm := h.cached m (hp.mem_iff.mpr hm)

lemma Counted.notMem (h : Counted names vars) (hc : vars.cached name = none) : name ∉ names := by
  intro hm
  have := h.cached name hm
  rw [hc] at this
  cases this

lemma Counted.cacheDbVar (h : Counted names vars) (hc : vars.cached name = none) (value : Arg) :
    Counted names (cacheDbVar vars name value) where
  distinct := h.distinct.cacheDbVar hc
  count m var hvar := by
    rw [cached_cacheDbVar hc] at hvar
    split_ifs at hvar with hm
    · obtain rfl := Option.some.inj hvar
      rw [hm, List.count_eq_zero_of_not_mem (h.notMem hc)]
      rfl
    · exact h.count m var hvar
  cached m hm := by
    rw [cached_cacheDbVar hc]
    split_ifs
    · rfl
    · exact h.cached m hm

lemma Counted.lookupVar (h : Counted names vars) (parseArg : String → Option Arg) (name : String) :
    Counted names (lookupVar parseArg vars name).2 := by
  rcases lookupVar_cases parseArg vars name with ⟨v,-,hl⟩ | ⟨-,hl⟩ | ⟨value,hc,-,-,hl⟩
  · rw [hl]
    exact h
  · rw [hl]
    exact h
  · rw [hl]
    exact h.cacheDbVar hc value

lemma Counted.overwrite (h : Counted names vars) (name : String) (value : Arg) :
    Counted names (overwrite vars name value) where
  distinct := h.distinct.overwrite name value
  count m var hvar := by
    rw [cached_overwrite] at hvar
    split_ifs at hvar with hm
    · obtain ⟨v,hv,rfl⟩ := Option.map_eq_some_iff.mp hvar
      rw [hm]
      exact h.count name v hv
    · exact h.count m var hvar
  cached m hm := by
    rw [cached_overwrite]
    split_ifs with he
    · subst he
      simpa using h.cached m hm
    · exact h.cached m hm

lemma Counted.addVar (h : Counted names vars) (libc : Libc) (parseArg : String → Option Arg) (name : String)
    (value : Arg) : Counted names (addVar libc parseArg vars name value).2.1 := by
  rcases addVar_cases libc parseArg vars name value with ⟨-,heq⟩ | ⟨hc,-,heq⟩ | ⟨var,-,-,-,heq⟩
  · rw [heq]
    exact h.lookupVar parseArg name
  · rw [heq]
    exact { h.cacheDbVar hc value with }
  · rw [heq]
    exact { (h.lookupVar parseArg name).overwrite name value with }

lemma Counted.deleteVar (h : Counted names vars) (name : String) : Counted names (deleteVar vars name).2 := by
  rcases deleteVar_cases h.distinct name with ⟨var,hvar,href,-,hdistinct,hcached,-⟩ | ⟨-,heq⟩
  · have hcount := h.count name var hvar
    have hout : name ∉ names := List.count_eq_zero.mp (by omega)
    refine ⟨hdistinct,fun m v hm => ?_,fun m hm => ?_⟩
    · rw [hcached] at hm
      split_ifs at hm
      exact h.count m v hm
    · rw [hcached, if_neg fun he : m = name => hout (he ▸ hm)]
      exact h.cached m hm
  · rw [heq]
    exact h

/-- One change of a count: the variable was found, and its count is another one. -/
lemma changeRef_eq_ok {n : ℤ} (h : changeRef parseArg n vars name = .ok vars') :
    ((lookupVar parseArg vars name).2.cached name).isSome = true ∧
    vars' = { (lookupVar parseArg vars name).2 with
      cache := addRefs n name (lookupVar parseArg vars name).2.cache } := by
  unfold changeRef at h
  cases hl : lookupVar parseArg vars name with
  | mk found vars₁ =>
    cases found with
    | none => simp [hl] at h
    | some var =>
      simp only [hl, Except.ok.injEq] at h
      exact ⟨by rw [cached_of_lookupVar hl]; rfl,h.symm⟩

lemma Counted.addRefs {names' : List String} {n : ℤ} (h : Counted names vars)
    (hname : (vars.cached name).isSome = true) (hsub : ∀ m ∈ names', m ∈ name :: names)
    (hn : (names'.count name : ℤ) = names.count name + n)
    (hne : ∀ m, m ≠ name → names'.count m = names.count m) :
    Counted names' { vars with cache := addRefs n name vars.cache } where
  distinct := h.distinct.addRefs n name
  count m var hvar := by
    rw [cached_addRefs] at hvar
    split_ifs at hvar with hm
    · obtain ⟨v,hv,rfl⟩ := Option.map_eq_some_iff.mp hvar
      rw [hm, hn, ← h.count name v hv]
    · rw [hne m hm]
      exact h.count m var hvar
  cached m hm := by
    rw [cached_addRefs]
    split_ifs with he
    · simpa using hname
    · rcases List.mem_cons.mp (hsub m hm) with he' | hm'
      · exact absurd he' he
      · exact h.cached m hm'

/-- A reference more. -/
lemma Counted.increment (h : Counted names vars) (hinc : changeRef parseArg 1 vars name = .ok vars') :
    Counted (name :: names) vars' := by
  obtain ⟨hname,rfl⟩ := changeRef_eq_ok hinc
  apply (h.lookupVar parseArg name).addRefs hname (fun _ hm => hm)
  · simp
  · intro m hm
    rw [List.count_cons_of_ne hm.symm]

/-- A reference less, which is always there to be given back. -/
lemma Counted.decrement (h : Counted (name :: names) vars) (parseArg : String → Option Arg) :
    ∃ vars', changeRef parseArg (-1) vars name = .ok vars' ∧ Counted names vars' := by
  have hname := h.cached name List.mem_cons_self
  obtain ⟨var,hvar⟩ := Option.isSome_iff_exists.mp hname
  refine ⟨_,by rw [changeRef, lookupVar_of_cached hvar],?_⟩
  apply h.addRefs hname
  · exact fun m hm => List.mem_cons_of_mem _ (List.mem_cons_of_mem _ hm)
  · rw [List.count_cons_self]
    omega
  · intro m hm
    rw [List.count_cons_of_ne hm.symm]

lemma Counted.increments {l : List String} (h : Counted names vars)
    (hinc : l.foldlM (changeRef parseArg 1) vars = .ok vars') : Counted (names ++ l) vars' := by
  induction l generalizing names vars with
  | nil =>
    obtain rfl := Except.ok.inj hinc
    rwa [List.append_nil]
  | cons name l ih =>
    rw [List.foldlM_cons] at hinc
    obtain ⟨vars₁,h₁,hinc⟩ := bind_eq_ok.mp hinc
    exact (ih (h.increment h₁) hinc).perm List.perm_middle.symm

lemma Counted.decrements {l : List String} (h : Counted (l ++ names) vars)
    (parseArg : String → Option Arg) :
    ∃ vars', l.foldlM (changeRef parseArg (-1)) vars = .ok vars' ∧ Counted names vars' := by
  induction l generalizing vars with
  | nil => exact ⟨vars,rfl,h⟩
  | cons name l ih =>
    have hhead : Counted (name :: (l ++ names)) vars := h
    obtain ⟨vars₁,h₁,hdec⟩ := hhead.decrement parseArg
    obtain ⟨vars',h',hcounted⟩ := ih hdec
    exact ⟨vars',by rw [List.foldlM_cons, h₁, ok_bind, h'],hcounted⟩

lemma typeOf_eq {var : DbVar} (h : vars.cached name = some var) : vars.typeOf name = var.value.type := by
  rw [VarStore.typeOf, h, Option.map_some, Option.getD_some]

lemma typeOf_congr {m : String} (h : vars'.cached m = vars.cached m) : vars'.typeOf m = vars.typeOf m := by
  rw [VarStore.typeOf, VarStore.typeOf, h]

lemma typeOf_lookupVar {m : String} (h : (vars.cached m).isSome = true) (name : String) :
    (lookupVar parseArg vars name).2.typeOf m = vars.typeOf m := by
  obtain ⟨var,hvar⟩ := Option.isSome_iff_exists.mp h
  rw [typeOf_eq hvar, typeOf_eq (cached_lookupVar_of_cached hvar)]

/-- A variable keeps its type when it is set again. -/
lemma typeOf_addVar {m : String} (h : (vars.cached m).isSome = true) :
    (addVar libc parseArg vars name value).2.1.typeOf m = vars.typeOf m := by
  rcases addVar_cases libc parseArg vars name value with ⟨-,heq⟩ | ⟨hc,-,heq⟩ | ⟨var,hvar,htype,-,heq⟩
  · rw [heq, typeOf_lookupVar h]
  · have hm : m ≠ name := by
      rintro rfl
      rw [hc] at h
      cases h
    rw [heq]
    apply typeOf_congr
    exact (cached_cacheDbVar hc m).trans (if_neg hm)
  · have hlookup : (lookupVar parseArg vars name).2.typeOf m = vars.typeOf m := typeOf_lookupVar h name
    have hcached := @cached_overwrite (lookupVar parseArg vars name).2 name value m
    rw [heq, ← hlookup]
    by_cases hm : m = name
    · subst hm
      rw [if_pos rfl, hvar] at hcached
      rw [typeOf_eq hvar, htype]
      exact typeOf_eq hcached
    · rw [if_neg hm] at hcached
      exact typeOf_congr hcached

lemma typeOf_changeRef {n : ℤ} {m : String} (h : (vars.cached m).isSome = true)
    (hchange : changeRef parseArg n vars name = .ok vars') : vars'.typeOf m = vars.typeOf m := by
  obtain ⟨-,rfl⟩ := changeRef_eq_ok hchange
  have hlookup : (lookupVar parseArg vars name).2.typeOf m = vars.typeOf m := typeOf_lookupVar h name
  rw [← hlookup]
  unfold VarStore.typeOf
  rw [cached_addRefs]
  split_ifs with hm
  · rw [hm, Option.map_map]
    rfl
  · rfl

lemma cached_changeRef {n : ℤ} {m : String} (h : (vars.cached m).isSome = true)
    (hchange : changeRef parseArg n vars name = .ok vars') : (vars'.cached m).isSome = true := by
  obtain ⟨hname,rfl⟩ := changeRef_eq_ok hchange
  obtain ⟨var,hvar⟩ := Option.isSome_iff_exists.mp h
  rw [cached_addRefs]
  split_ifs with hm
  · simpa using hname
  · rw [cached_lookupVar_of_cached hvar]
    rfl

/-- Counting leaves the variables cached with their types. -/
lemma changeRefs_typeOf {n : ℤ} {m : String} {l : List String} (h : (vars.cached m).isSome = true)
    (hchange : l.foldlM (changeRef parseArg n) vars = .ok vars') :
    (vars'.cached m).isSome = true ∧ vars'.typeOf m = vars.typeOf m := by
  induction l generalizing vars with
  | nil =>
    obtain rfl := Except.ok.inj hchange
    exact ⟨h,rfl⟩
  | cons name l ih =>
    rw [List.foldlM_cons] at hchange
    obtain ⟨vars₁,h₁,hchange⟩ := bind_eq_ok.mp hchange
    obtain ⟨hcached,htype⟩ := ih (cached_changeRef h h₁) hchange
    exact ⟨hcached,htype.trans (typeOf_changeRef h h₁)⟩

/-- The cache accounts for the names, whose types are those of another time. -/
structure Accounts (names : List String) (old vars : VarStore) : Prop extends Counted names vars where
  types : ∀ m ∈ names, vars.typeOf m = old.typeOf m

variable {old : VarStore}

lemma Counted.accounts (h : Counted names vars) : Accounts names vars vars := ⟨h,fun _ _ => rfl⟩

lemma Accounts.lookupVar (h : Accounts names old vars) (parseArg : String → Option Arg) (name : String) :
    Accounts names old (lookupVar parseArg vars name).2 where
  toCounted := h.toCounted.lookupVar parseArg name
  types m hm := (typeOf_lookupVar (h.cached m hm) name).trans (h.types m hm)

lemma Accounts.addVar (h : Accounts names old vars) (libc : Libc) (parseArg : String → Option Arg)
    (name : String) (value : Arg) : Accounts names old (addVar libc parseArg vars name value).2.1 where
  toCounted := h.toCounted.addVar libc parseArg name value
  types m hm := (typeOf_addVar (h.cached m hm)).trans (h.types m hm)

lemma Accounts.deleteVar (h : Accounts names old vars) (name : String) :
    Accounts names old (deleteVar vars name).2 := by
  refine ⟨h.toCounted.deleteVar name,fun m hm => ?_⟩
  rw [← h.types m hm]
  rcases deleteVar_cases h.distinct name with ⟨var,hvar,href,-,-,hcached,-⟩ | ⟨-,heq⟩
  · have hcount := h.count name var hvar
    have hout : name ∉ names := List.count_eq_zero.mp (by omega)
    apply typeOf_congr
    rw [hcached, if_neg fun he : m = name => hout (he ▸ hm)]
  · rw [heq]

end Account

section Types
variable {parseArg : String → Option Arg} {P : VarStore → Prop} {vars vars' : VarStore} {args : List Arg}

/-- The type of an argument, a variable replaced by its value. -/
def VarStore.argType (vars : VarStore) : Arg → ArgType
  | .var name => vars.typeOf name
  | arg => arg.type

lemma mem_varNames {name : String} : name ∈ varNames args ↔ .var name ∈ args := by
  unfold varNames
  rw [List.mem_filterMap]
  constructor
  · rintro ⟨arg,harg,h⟩
    split at h
    · rw [← Option.some.inj h]
      exact harg
    · cases h
  · exact fun h => ⟨_,h,rfl⟩

lemma map_argType_congr (h : ∀ m ∈ varNames args, vars'.typeOf m = vars.typeOf m) :
    args.map vars'.argType = args.map vars.argType := by
  apply List.map_congr_left
  intro arg harg
  cases arg with
  | var name => exact h name (mem_varNames.mpr harg)
  | int => rfl
  | bool => rfl
  | float => rfl
  | str => rfl
  | none => rfl

/-- Checking arguments only looks variables up. -/
lemma resolveTypes_keeps (hP : ∀ vars name, P vars → P (lookupVar parseArg vars name).2) (args : List Arg)
    (h : P vars) : P (resolveTypes parseArg vars args).2 := by
  fun_induction resolveTypes parseArg vars args with
  | case1 vars => exact h
  | case2 vars name args vars' hl =>
    have := hP vars name h
    rw [hl] at this
    exact this
  | case3 vars name args var vars' hl types vars'' hrest ih =>
    have := hP vars name h
    rw [hl] at this
    have := ih this
    rw [hrest] at this
    exact this
  | case4 vars args arg hvar types vars' hrest ih =>
    have := ih h
    rw [hrest] at this
    exact this

/-- What is cached stays as it is while arguments are checked. -/
lemma cached_resolveTypes {m : String} {var : DbVar} (h : vars.cached m = some var) (args : List Arg) :
    (resolveTypes parseArg vars args).2.cached m = some var :=
  resolveTypes_keeps (P := fun v => v.cached m = some var)
    (fun _ _ hc => cached_lookupVar_of_cached hc) args h

/-- Where the types of arguments were found, their variables are cached with these types. -/
lemma resolveTypes_ok {types : List ArgType} (h : resolveTypes parseArg vars args = (.ok types, vars')) :
    (∀ m ∈ varNames args, (vars'.cached m).isSome = true) ∧ types = args.map vars'.argType := by
  induction args generalizing vars types with
  | nil =>
    obtain ⟨htypes,rfl⟩ := Prod.mk.inj h
    exact ⟨by simp [varNames],(Except.ok.inj htypes).symm⟩
  | cons arg args ih =>
    -- the types of the rest, wherever the first one comes from
    have hrest : ∀ {type : ArgType} {vars₁ : VarStore},
        ((resolveTypes parseArg vars₁ args).1.map (type :: ·), (resolveTypes parseArg vars₁ args).2) =
          (.ok types, vars') →
        (resolveTypes parseArg vars₁ args).2 = vars' ∧
          (∀ m ∈ varNames args, (vars'.cached m).isSome = true) ∧
          types = type :: args.map vars'.argType := by
      intro type vars₁ heq
      obtain ⟨htypes,hvars⟩ := Prod.mk.inj heq
      cases hr : resolveTypes parseArg vars₁ args with
      | mk found vars₂ =>
        rw [hr] at htypes hvars
        cases found with
        | error name => cases htypes
        | ok rest =>
          obtain rfl : vars₂ = vars' := hvars
          obtain ⟨hcached,rfl⟩ := ih hr
          exact ⟨rfl,hcached,(Except.ok.inj htypes).symm⟩
    cases arg with
    | var name =>
      rw [resolveTypes] at h
      cases hl : lookupVar parseArg vars name with
      | mk found vars₁ =>
        cases found with
        | none => simp [hl] at h
        | some var =>
          simp only [hl] at h
          obtain ⟨hvars,hcached,htypes⟩ := hrest h
          have hname := @cached_resolveTypes parseArg _ _ _ (cached_of_lookupVar hl) args
          rw [hvars] at hname
          refine ⟨?_,?_⟩
          · intro m hm
            rcases List.mem_cons.mp (show m ∈ name :: varNames args from hm) with rfl | hm
            · rw [hname]
              rfl
            · exact hcached m hm
          · rw [htypes, List.map_cons]
            congr 1
            exact (typeOf_eq hname).symm
    | int i => exact (hrest h).2
    | bool b => exact (hrest h).2
    | float bits => exact (hrest h).2
    | str s => exact (hrest h).2
    | none => exact (hrest h).2

/-- Cached variables are found without a change. -/
lemma resolveTypes_of_cached (h : ∀ m ∈ varNames args, (vars.cached m).isSome = true) :
    resolveTypes parseArg vars args = (.ok (args.map vars.argType), vars) := by
  induction args with
  | nil => rfl
  | cons arg args ih =>
    cases arg with
    | var name =>
      have hname : (vars.cached name).isSome = true := h name List.mem_cons_self
      obtain ⟨var,hvar⟩ := Option.isSome_iff_exists.mp hname
      rw [resolveTypes, lookupVar_of_cached hvar]
      simp only [ih fun m hm => h m (List.mem_cons_of_mem _ hm), List.map_cons, VarStore.argType,
        typeOf_eq hvar]
      rfl
    | int i =>
      rw [resolveTypes, ih h, List.map_cons]
      · rfl
      · simp
    | bool b =>
      rw [resolveTypes, ih h, List.map_cons]
      · rfl
      · simp
    | float bits =>
      rw [resolveTypes, ih h, List.map_cons]
      · rfl
      · simp
    | str s =>
      rw [resolveTypes, ih h, List.map_cons]
      · rfl
      · simp
    | none =>
      rw [resolveTypes, ih h, List.map_cons]
      · rfl
      · simp

lemma checkPrototype_keeps (hP : ∀ vars name, P vars → P (lookupVar parseArg vars name).2) (h : P vars)
    (prototype : String) (args : List Arg) : P (checkPrototype parseArg vars prototype args).2 := by
  have hkept := resolveTypes_keeps hP args h
  unfold checkPrototype
  split
  · rename_i hr
    rw [hr] at hkept
    exact hkept
  · rename_i hr
    rw [hr] at hkept
    exact hkept

lemma checkAll_keeps (hP : ∀ vars name, P vars → P (lookupVar parseArg vars name).2) (h : P vars)
    (calls : List (String × List Arg × String)) : P (checkAll parseArg vars calls).2 := by
  induction calls generalizing vars with
  | nil => exact h
  | cons call calls ih =>
    obtain ⟨prototype,args,what⟩ := call
    have hkept := checkPrototype_keeps hP h prototype args
    rw [checkAll]
    split
    · rename_i hc
      rw [hc] at hkept
      exact hkept
    · rename_i hc
      rw [hc] at hkept
      exact ih hkept

/-- Arguments that fit a prototype: their variables are cached, and the types are those it asks for. -/
structure Fits (vars : VarStore) (prototype : String) (args : List Arg) : Prop where
  cached : ∀ m ∈ varNames args, (vars.cached m).isSome = true
  types : prototypeError prototype (prototypeOf (args.map vars.argType)) = none

lemma Fits.of_cached {prototype : String} (h : Fits vars prototype args)
    (hvars : ∀ m ∈ varNames args, (vars'.cached m).isSome = true ∧ vars'.typeOf m = vars.typeOf m) :
    Fits vars' prototype args where
  cached m hm := (hvars m hm).1
  types := by
    rw [map_argType_congr fun m hm => (hvars m hm).2]
    exact h.types

/-- `check_prototype` accepts arguments that fit, and looks nothing up in the database. -/
lemma Fits.checkPrototype {prototype : String} (h : Fits vars prototype args) :
    checkPrototype parseArg vars prototype args = (none, vars) := by
  rw [Xcpmd.checkPrototype, resolveTypes_of_cached h.cached]
  exact Prod.ext h.types rfl

lemma fits_of_checkPrototype {prototype : String}
    (h : checkPrototype parseArg vars prototype args = (none, vars')) : Fits vars' prototype args := by
  unfold checkPrototype at h
  cases hr : resolveTypes parseArg vars args with
  | mk found vars₁ =>
    cases found with
    | error name => simp [hr] at h
    | ok types =>
      simp only [hr] at h
      obtain ⟨herr,rfl⟩ := Prod.mk.inj h
      obtain ⟨hcached,rfl⟩ := resolveTypes_ok hr
      exact ⟨hcached,herr⟩

/-- What fits still does after a look-up. -/
lemma Fits.lookupVar {prototype : String} (h : Fits vars prototype args) (parseArg : String → Option Arg)
    (name : String) : Fits (lookupVar parseArg vars name).2 prototype args := by
  apply h.of_cached
  intro m hm
  obtain ⟨var,hvar⟩ := Option.isSome_iff_exists.mp (h.cached m hm)
  have hvar' := @cached_lookupVar_of_cached parseArg vars name m var hvar
  exact ⟨by rw [hvar']; rfl,typeOf_lookupVar (h.cached m hm) name⟩

lemma fits_of_checkAll {calls : List (String × List Arg × String)}
    (h : checkAll parseArg vars calls = (none, vars')) : ∀ call ∈ calls, Fits vars' call.1 call.2.1 := by
  induction calls generalizing vars with
  | nil => simp
  | cons call calls ih =>
    obtain ⟨prototype,args,what⟩ := call
    rw [checkAll] at h
    cases hc : checkPrototype parseArg vars prototype args with
    | mk err vars₁ =>
      cases err with
      | some err => simp [hc] at h
      | none =>
        simp only [hc] at h
        have hhead := checkAll_keeps (P := fun v => Fits v prototype args)
          (fun _ name hf => hf.lookupVar parseArg name) (fits_of_checkPrototype hc) calls
        rw [h] at hhead
        exact List.forall_mem_cons.mpr ⟨hhead,ih h⟩

end Types

section Engine
variable {ε : Type} {libc : Libc} {reg : Registry ε} {s s' : Engine ε} {r : Rule ε}

/-- The variables that loaded rules name, with repetitions. -/
def Engine.varNames (s : Engine ε) : List String := s.rules.flatMap Rule.varNames

/-- Every call of a rule fits its prototype. -/
def Rule.Typed (vars : VarStore) (r : Rule ε) : Prop := ∀ call ∈ r.calls, Fits vars call.1 call.2.1

/-- A rule names the variables of its calls. -/
lemma mem_rule_varNames {m : String} :
    m ∈ r.varNames ↔ ∃ call ∈ r.calls, m ∈ varNames call.2.1 := by
  simp [Rule.varNames, Rule.calls, or_and_right, exists_or]

lemma Rule.Typed.cached {vars : VarStore} (h : r.Typed vars) {m : String} (hm : m ∈ r.varNames) :
    (vars.cached m).isSome = true := by
  obtain ⟨call,hcall,hm⟩ := mem_rule_varNames.mp hm
  exact (h call hcall).cached m hm

lemma Rule.Typed.of_cached {vars vars' : VarStore} (h : r.Typed vars)
    (hvars : ∀ m ∈ r.varNames, (vars'.cached m).isSome = true ∧ vars'.typeOf m = vars.typeOf m) :
    r.Typed vars' := by
  intro call hcall
  apply (h call hcall).of_cached
  exact fun m hm => hvars m (mem_rule_varNames.mpr ⟨call,hcall,hm⟩)

lemma mem_engine_varNames {m : String} (hr : r ∈ s.rules) (hm : m ∈ r.varNames) : m ∈ s.varNames :=
  List.mem_flatMap.mpr ⟨r,hr,hm⟩

/-- Whatever `validate_rule` finds, it only looks variables up. -/
lemma validateRule_keeps {P : VarStore → Prop}
    (hP : ∀ vars name, P vars → P (lookupVar reg.parseArg vars name).2) (hs : P s.vars) (rule : Rule ε) :
    P (validateRule reg s rule).2.2 := by
  have hkept := checkAll_keeps hP hs rule.calls
  unfold validateRule
  split_ifs
  · exact hs
  · exact hs
  · exact hs
  · exact hs
  · split
    · rename_i hc
      rw [hc] at hkept
      exact hkept
    · rename_i hc
      rw [hc] at hkept
      exact hkept

variable [DecidableEq ε]

/-- The variables account for the loaded rules, and the rules are well typed. -/
structure Accounted (reg : Registry ε) (s : Engine ε) : Prop where
  linked : Linked reg s
  counted : Counted s.varNames s.vars
  typed : ∀ r ∈ s.rules, r.Typed s.vars

lemma accounted_start (value : ε → Value) (db : String → Option String) :
    Accounted reg (Engine.start value ⟨[], db⟩) where
  linked := linked_start value _
  counted := counted_nil rfl
  typed := by simp [Engine.start]

/-- Variables that still account for the rules may take the place of the old ones. -/
lemma Accounted.withVars (h : Accounted reg s) {vars : VarStore} (hvars : Accounts s.varNames s.vars vars) :
    Accounted reg (s.withVars vars) where
  linked := h.linked.congr rfl rfl rfl
  counted := hvars.toCounted
  typed r hr := by
    apply (h.typed r hr).of_cached
    intro m hm
    have hmem := mem_engine_varNames hr hm
    exact ⟨hvars.cached m hmem,hvars.types m hmem⟩

/-- Without one rule, those before and after it are left. -/
lemma Linked.rules_filter (hs : Linked reg s) {before after : List (Rule ε)}
    (hrules : s.rules = before ++ r :: after) :
    s.rules.filter (fun q => q.addr ≠ r.addr) = before ++ after := by
  have haddrs := hs.ruleAddrs
  rw [hrules, List.map_append, List.map_cons, List.nodup_middle, List.nodup_cons] at haddrs
  have hout : ∀ q ∈ before ++ after, decide (q.addr ≠ r.addr) = true := by
    intro q hq
    have hne : q.addr ≠ r.addr := fun he => haddrs.1 (by
      rw [← List.map_append, ← he]
      exact List.mem_map_of_mem hq)
    simpa using hne
  rw [hrules, List.filter_append, List.filter_cons_of_neg (by simp), ← List.filter_append,
    List.filter_eq_self.mpr hout]

/-- The rules are the one rule and those that are left without it. -/
lemma Linked.rules_perm (hs : Linked reg s) (hr : r ∈ s.rules) (vars : VarStore) :
    s.rules.Perm (r :: (s.without r vars).rules) := by
  obtain ⟨before,after,hrules⟩ := List.append_of_mem hr
  have hleft : (s.without r vars).rules = before ++ after := hs.rules_filter hrules
  rw [hleft, hrules]
  exact List.perm_middle

lemma Linked.varNames_perm (hs : Linked reg s) (hr : r ∈ s.rules) (vars : VarStore) :
    s.varNames.Perm (r.varNames ++ (s.without r vars).varNames) :=
  (hs.rules_perm hr vars).flatMap_right _

/-- A rule that is deleted finds all its variables, and the rest is accounted for. -/
lemma Accounted.release (h : Accounted reg s) (hr : r ∈ s.rules) : ∃ vars,
    r.varNames.foldlM (changeRef reg.parseArg (-1)) s.vars = .ok vars ∧ Accounted reg (s.without r vars) := by
  have hcounted : Counted (r.varNames ++ (s.without r s.vars).varNames) s.vars :=
    h.counted.perm (h.linked.varNames_perm hr s.vars)
  obtain ⟨vars,hvars,hleft⟩ := hcounted.decrements reg.parseArg
  refine ⟨vars,hvars,h.linked.without r vars,hleft,fun q hq => ?_⟩
  apply (h.typed q (mem_rules_without hq).1).of_cached
  intro m hm
  have hmem := mem_engine_varNames (mem_rules_without hq).1 hm
  exact changeRefs_typeOf (h.counted.cached m hmem) hvars

lemma Accounted.without (h : Accounted reg s) (hr : r ∈ s.rules) {vars : VarStore}
    (hvars : r.varNames.foldlM (changeRef reg.parseArg (-1)) s.vars = .ok vars) :
    Accounted reg (s.without r vars) := by
  obtain ⟨vars',hvars',hleft⟩ := h.release hr
  obtain rfl := Except.ok.inj (hvars.symm.trans hvars')
  exact hleft

lemma Accounted.load (h : Accounted reg s) {parsed : ParsedRule} {code : ℕ} {err : String}
    (happly : applyRule reg s parsed = .ok (s', code, err)) : Accounted reg s' := by
  have hb : Built reg s (buildRule reg s parsed) := built_buildRule s parsed
  have haccounts : Accounts s.varNames s.vars
      (validateRule reg (buildRule reg s parsed).engine (buildRule reg s parsed).rule).2.2 := by
    apply validateRule_keeps fun vars name hv => hv.lookupVar reg.parseArg name
    rw [hb.vars]
    exact h.counted.accounts
  rcases applyRule_spec h.linked happly with
    ⟨text,vars,vars',hv,hinc,rfl,-⟩ | ⟨ruleErr,text,vars,hv,-,rfl,-⟩
  · rw [hv] at haccounts
    have hrules : (loadedWith (buildRule reg s parsed) vars').rules =
        s.rules ++ [(buildRule reg s parsed).rule] := by rw [loadedWith, hb.rules]
    obtain ⟨-,-,hconds,-,hcheck⟩ := validateRule_eq_valid hv
    have hnames : (loadedWith (buildRule reg s parsed) vars').varNames =
        s.varNames ++ (buildRule reg s parsed).rule.varNames := by
      rw [Engine.varNames, hrules, List.flatMap_append, List.flatMap_singleton]
      rfl
    refine ⟨hb.linked_loadedWith h.linked hconds vars',?_,?_⟩
    · rw [hnames]
      exact haccounts.toCounted.increments hinc
    · rw [hrules, List.forall_mem_append, List.forall_mem_singleton]
      refine ⟨fun r hr => ?_,?_⟩
      · apply (h.typed r hr).of_cached
        intro m hm
        have hmem := mem_engine_varNames hr hm
        obtain ⟨hcached,htype⟩ := changeRefs_typeOf (haccounts.cached m hmem) hinc
        exact ⟨hcached,htype.trans (haccounts.types m hmem)⟩
      · have htyped : (buildRule reg s parsed).rule.Typed vars := fits_of_checkAll hcheck
        apply htyped.of_cached
        exact fun m hm => changeRefs_typeOf (htyped.cached hm) hinc
  · rw [hv] at haccounts
    have hnames : (rejectedWith s (buildRule reg s parsed) vars).varNames = s.varNames := by
      rw [Engine.varNames, rejectedWith, hb.rules]
      rfl
    refine ⟨hb.linked_rejectedWith h.linked vars,?_,?_⟩
    · rw [hnames]
      exact haccounts.toCounted
    · intro r hr
      have hr' : r ∈ s.rules := by
        rw [← hb.rules]
        exact hr
      apply (h.typed r hr').of_cached
      intro m hm
      have hmem := mem_engine_varNames hr' hm
      exact ⟨haccounts.cached m hmem,haccounts.types m hmem⟩

/-- What the parser does keeps the account. -/
lemma accounted_kept (libc : Libc) (reg : Registry ε) : PolicyKept libc reg (Accounted reg) where
  lookupVar _ name h := h.withVars (h.counted.accounts.lookupVar reg.parseArg name)
  addVar _ name arg _ _ _ h := h.withVars (h.counted.accounts.addVar libc reg.parseArg name (convFnArg arg))
  applyRule _ _ _ _ _ _ h happly := h.load happly

/-- Variables that no rule names can be cleared. -/
lemma Accounted.cleared (h : Accounted reg s) (hnil : s.varNames = []) :
    Accounted reg (s.withVars (deleteVars s.vars)) := by
  apply h.withVars
  rw [hnil]
  exact ⟨counted_nil rfl,by simp⟩

/-- A request keeps the account, unless it clears variables that rules name. -/
lemma Accounted.serve {d d' : Daemon ε} {rpc : Rpc} (h : Accounted reg d.engine)
    (hrpc : rpc = .clearVars → d.engine.varNames = []) (hstep : serve libc reg d rpc = .ok d') :
    Accounted reg d'.engine := by
  apply serve_keeps (accounted_kept libc reg) (fun _ ht => ht.linked) _ _ _ h _ hstep
  · exact fun t q vars ht hq hvars => ht.without hq hvars
  · exact fun t name ht => ht.withVars (ht.counted.accounts.deleteVar name)
  · exact fun t ht hnil => ht.cleared (by rw [Engine.varNames, hnil, List.flatMap_nil])
  · exact fun he => h.cleared (hrpc he)

/-- Rules that name variables are not there when the variables are cleared. -/
def Unreferenced (d : Daemon ε) (rpc : Rpc) : Prop := rpc = .clearVars → d.engine.varNames = []

lemma meets_unreferenced {rpcs : List Rpc} (h : ∀ rpc ∈ rpcs, rpc ≠ .clearVars) (d : Daemon ε) :
    Meets (Xcpmd.serve libc reg) Unreferenced d rpcs := by
  induction rpcs generalizing d with
  | nil => trivial
  | cons rpc rpcs ih =>
    obtain ⟨hrpc,hrpcs⟩ := List.forall_mem_cons.mp h
    exact ⟨fun he => absurd he hrpc,fun d' _ => ih hrpcs d'⟩

/-- A rule that is removed looks up no variable that is missing. -/
lemma Accounted.returns_xcpmdRemoveRule {d : Daemon ε} (h : Accounted reg d.engine) (name : String) :
    Returns (xcpmdRemoveRule reg d name) := by
  unfold xcpmdRemoveRule
  cases hr : lookupRule d.engine name with
  | none => exact returns_ok _
  | some r =>
    have hmem : r ∈ d.engine.rules := List.mem_of_find?_eq_some hr
    obtain ⟨vars,hvars,-⟩ := h.release hmem
    simp only [h.linked.deleteRule_eq hmem, hvars, ok_bind]
    exact returns_ok _

lemma accounted_run {value : ε → Value} {rpcs : List Rpc} {d : Daemon ε}
    (hmeets : Meets (Xcpmd.serve libc reg) Unreferenced (Daemon.start value) rpcs)
    (h : Machine.perform (Xcpmd.serve libc reg) (Daemon.start value) rpcs = .ok d) :
    Accounted reg d.engine := by
  refine hmeets.invariant (I := fun d => Accounted reg d.engine) ?_ (accounted_start value _) h
  exact fun _ _ _ ht hrpc hstep => ht.serve hrpc hstep

/-- In every run that clears the variables only while no rule names one, every cached variable counts
exactly how often the loaded rules name it, and every variable they name is cached. So a rule can always
be removed, and removing a variable leaves those alone that rules name. Clearing the variables leaves
them alone only if there are none. -/
theorem references_exact {value : ε → Value} {rpcs : List Rpc} {d : Daemon ε}
    (hmeets : Meets (Xcpmd.serve libc reg) Unreferenced (Daemon.start value) rpcs)
    (h : Machine.perform (Xcpmd.serve libc reg) (Daemon.start value) rpcs = .ok d) :
    (d.engine.vars.cache.map DbVar.name).Nodup ∧
    (∀ var ∈ d.engine.vars.cache, var.refCount = d.engine.varNames.count var.name) ∧
    (∀ r ∈ d.engine.rules, ∀ m ∈ r.varNames, ∃ var ∈ d.engine.vars.cache, var.name = m ∧
      lookupVar reg.parseArg d.engine.vars m = (some var, d.engine.vars) ∧ 0 < var.refCount) ∧
    (∀ name, Returns (handle libc reg d (.removeRule name))) ∧
    (∀ r ∈ d.engine.rules, ∀ m ∈ r.varNames, (deleteVar d.engine.vars m).2 = d.engine.vars ∧
      (xcpmdRemoveVar d m).2 = some "Variable still referenced by at least one rule") ∧
    ((∀ r ∈ d.engine.rules, ∀ m ∈ r.varNames,
      (xcpmdClearVars d).1.engine.vars.cached m = d.engine.vars.cached m) ↔ d.engine.varNames = []) := by
  have hacc := accounted_run hmeets h
  have hcounted := hacc.counted
  -- a variable that a rule names is cached with a positive count
  have hfound : ∀ r ∈ d.engine.rules, ∀ m ∈ r.varNames, ∃ var, d.engine.vars.cached m = some var ∧
      0 < var.refCount := by
    intro r hr m hm
    have hmem := mem_engine_varNames hr hm
    obtain ⟨var,hvar⟩ := Option.isSome_iff_exists.mp (hcounted.cached m hmem)
    refine ⟨var,hvar,?_⟩
    rw [hcounted.count m var hvar]
    exact Int.natCast_pos.mpr (List.count_pos_iff.mpr hmem)
  refine ⟨hcounted.distinct,?_,?_,?_,?_,?_⟩
  · intro var hvar
    exact hcounted.count _ var (lookupKey_of_mem hcounted.distinct hvar)
  · intro r hr m hm
    obtain ⟨var,hvar,hpos⟩ := hfound r hr m hm
    exact ⟨var,mem_of_lookupKey hvar,VarStore.name_of_cached hvar,lookupVar_of_cached hvar,hpos⟩
  · exact fun name => hacc.returns_xcpmdRemoveRule name
  · intro r hr m hm
    obtain ⟨var,hvar,hpos⟩ := hfound r hr m hm
    rcases deleteVar_cases hcounted.distinct m with ⟨v,hv,hle,-⟩ | ⟨-,heq⟩
    · rw [hvar] at hv
      rw [Option.some.inj hv] at hpos
      exact absurd hpos (Int.not_lt.mpr hle)
    · rw [xcpmdRemoveVar, heq]
      exact ⟨rfl,rfl⟩
  · constructor
    · intro hkept
      refine List.eq_nil_iff_forall_not_mem.mpr fun m hm => ?_
      obtain ⟨r,hr,hmr⟩ := List.mem_flatMap.mp hm
      obtain ⟨var,hvar,-⟩ := hfound r hr m hmr
      have hnone : (xcpmdClearVars d).1.engine.vars.cached m = none := rfl
      rw [hkept r hr m hmr, hvar] at hnone
      cases hnone
    · intro hnil r hr m hm
      have hmem := mem_engine_varNames hr hm
      rw [hnil] at hmem
      cases hmem

end Engine

/-- The modules of xcpmd, with its own parser for the entries of the database. -/
def zeroRegistry : Registry EventId := xcpmdRegistry (parseArgOf zeroLibc)

/-- A variable, and a rule that names it. -/
def lowRpcs : List Rpc :=
  [.addVar "low" "10",
    .addRule (some [("low", "10")]) "r" "whileOverallBattLessThan($low)" "doNothing()" ""]

/-- The daemon after some requests. -/
def zeroRun (rpcs : List Rpc) : Outcome (Daemon EventId) :=
  Machine.perform (serve zeroLibc zeroRegistry) (Daemon.start EventId.resetValue) rpcs

/-- The variable that the rule names is cached and counted once. -/
theorem references_exact_low : ∃ d, zeroRun lowRpcs = .ok d ∧ d.engine.varNames = ["low"] ∧
    ∀ var ∈ d.engine.vars.cache, var.refCount = ["low"].count var.name := by
  have hrun : (zeroRun lowRpcs).toOption.map (fun d => d.engine.varNames) = some ["low"] := by decide +kernel
  have hmeets : Meets (serve zeroLibc zeroRegistry) Unreferenced (Daemon.start EventId.resetValue) lowRpcs :=
    meets_unreferenced (by simp [lowRpcs]) _
  obtain ⟨d,hd,hnames⟩ := map_toOption_eq_some.mp hrun
  have hcount := (references_exact hmeets hd).2.1
  rw [hnames] at hcount
  exact ⟨d,hd,hnames,hcount⟩

/-- The variables are cleared under the rule: it names a variable that is nowhere, and removing it reads
through NULL. -/
theorem references_dangle : ∃ d, zeroRun (lowRpcs ++ [.clearVars]) = .ok d ∧ d.engine.varNames = ["low"] ∧
    d.engine.vars.cached "low" = none ∧ handle zeroLibc zeroRegistry d (.removeRule "r") = .error .null := by
  have hrun : (zeroRun (lowRpcs ++ [.clearVars])).toOption.map (fun d => (d.engine.varNames,
      d.engine.vars.cached "low",
      match handle zeroLibc zeroRegistry d (.removeRule "r") with
      | .ok _ => none
      | .error e => some e)) = some (["low"], none, some Stop.null) := by decide +kernel
  obtain ⟨d,hd,hval⟩ := map_toOption_eq_some.mp hrun
  obtain ⟨hnames,hrest⟩ := Prod.mk.inj hval
  obtain ⟨hcached,hnull⟩ := Prod.mk.inj hrest
  refine ⟨d,hd,hnames,hcached,?_⟩
  cases hr : handle zeroLibc zeroRegistry d (.removeRule "r") with
  | ok r => simp [hr] at hnull
  | error e =>
    simp only [hr, Option.some.injEq] at hnull
    rw [hnull]

end Xctools.Xcpmd
