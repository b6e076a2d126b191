import Xctools.Machine.Run
import Xctools.Xcpmd.Literals

/-! The variable cache against the database. Values go to the database as text and come back through the
parser; whatever is done with the variables, what is cached is what its entry stands for, so that
dropping the cache changes no look-up. -/
namespace Xctools.Xcpmd
open Machine

/-- A value that the parser can hand to `add_var`. -/
def Arg.Settable (value : Arg) : Prop :=
  ∃ arg : FnArg, arg.Formed ∧ (∀ name, arg ≠ .var name) ∧ value = convFnArg arg

/-- What can be done with the variables. -/
inductive VarOp
  | addVar (name : String) (value : Arg)
  | lookupVar (name : String)
  | resolveVar (name : String)
  | deleteVar (name : String)
  | deleteVars
  | deleteCachedVars
  | parseVar (text : String)
  | parseDbVars (dump : Option (List (String × String)))

/-- Names and values are such as the parser reads. -/
def VarOp.Readable : VarOp → Prop
  | .addVar name value => IsName name ∧ value.Settable
  | _ => True

/-- `resolve_var`. -/
def resolveVar (parseArg : String → Option Arg) (vars : VarStore) (name : String) : Option Arg × VarStore :=
  match lookupVar parseArg vars name with
  | (none, vars') => (none, vars')
  | (some var, vars') => (some var.value, vars')

section Coherent
variable (libc : Libc)

/-- The variables after one operation, whose values are read back by `parse_arg`. -/
def varStep (vars : VarStore) : VarOp → Outcome VarStore
  | .addVar name value => .ok (addVar libc (parseArgOf libc) vars name value).2.1
  | .lookupVar name => .ok (lookupVar (parseArgOf libc) vars name).2
  | .resolveVar name => .ok (resolveVar (parseArgOf libc) vars name).2
  | .deleteVar name => .ok (deleteVar vars name).2
  | .deleteVars => .ok (deleteVars vars)
  | .deleteCachedVars => .ok (deleteCachedVars vars)
  | .parseVar text => do return (← parseVar libc (parseArgOf libc) vars text).2.1
  | .parseDbVars dump => do return (← parseDbVars libc (parseArgOf libc) vars dump).vars

/-- What is cached is what the entry of the database stands for. A float is printed with fewer digits
than it has. -/
structure Coherent (vars : VarStore) : Prop where
  distinct : vars.Distinct
  entry : ∀ name var, vars.cached name = some var → var.value.type ≠ .none ∧
    ∃ text, vars.db name = some text ∧
      (var.value.type ≠ .float → getDbVar (parseArgOf libc) vars name = var.value)

variable {libc} {vars : VarStore} {name : String} {value : Arg}

lemma coherent_empty : Coherent libc ⟨[], fun _ => none⟩ :=
  ⟨List.nodup_nil,fun name var h => by cases h⟩

/-- A value from the parser can be read back, unless it is a float. -/
lemma Arg.Settable.cases (h : value.Settable) :
    (∃ bits, value = .float bits) ∨ value.Printable ∧ ∀ name, value ≠ .var name := by
  obtain ⟨arg,harg,hvar,rfl⟩ := h
  cases arg with
  | int i =>
    have hle := Int32.le_toInt (Int32.ofInt i)
    have hlt := Int32.toInt_lt (Int32.ofInt i)
    refine .inr ⟨⟨hle,?_⟩,by simp [convFnArg]⟩
    exact Int.le_of_lt_add_one hlt
  | float bits => exact .inl ⟨bits,rfl⟩
  | str s => exact .inr ⟨harg,by simp [convFnArg]⟩
  | bool b => exact .inr ⟨trivial,by simp [convFnArg]⟩
  | var name => exact absurd rfl (hvar name)
  | undetermined => exact harg.elim

lemma Arg.Settable.type_ne_none (h : value.Settable) : value.type ≠ .none := by
  obtain ⟨arg,harg,hvar,rfl⟩ := h
  cases arg with
  | undetermined => exact harg.elim
  | _ => simp [convFnArg, Arg.type]

lemma Spoken.ne_empty {parseArg : String → Option Arg} {arg : FnArg} {text : String}
    (h : Spoken libc parseArg text.toList arg) : text ≠ "" := by
  obtain ⟨type,acc,hread,-⟩ := h
  simpa using hread.start

/-- An entry that stands for a value parses as that value. -/
lemma parseArg_of_getDbVar {parseArg : String → Option Arg} {text : String} (hdb : vars.db name = some text)
    (htype : value.type ≠ .none) (h : getDbVar parseArg vars name = value) :
    parseArg (name ++ "(" ++ text ++ ")") = some value := by
  subst h
  rw [getDbVar, hdb] at htype ⊢
  dsimp only at htype ⊢
  split_ifs at htype ⊢ with hempty
  · exact absurd rfl htype
  · cases hparse : parseArg (name ++ "(" ++ text ++ ")") with
    | none => simp [hparse, Arg.type] at htype
    | some arg => rfl

lemma resolveVar_vars (parseArg : String → Option Arg) (vars : VarStore) (name : String) :
    (resolveVar parseArg vars name).2 = (lookupVar parseArg vars name).2 := by
  unfold resolveVar
  split
  · rename_i hl
    rw [hl]
  · rename_i hl
    rw [hl]

/-- What is written for a value stands for it. -/
lemma getDbVar_writeDbVar (hname : IsName name) (h : value.Settable) (hfloat : value.type ≠ .float) :
    getDbVar (parseArgOf libc) (writeDbVar libc vars name value) name = value := by
  rcases h.cases with ⟨bits,rfl⟩ | ⟨hprint,hvar⟩
  · exact absurd rfl hfloat
  · have hspoken := @spoken_argToString libc (fun _ => none) value hprint
    have hread := parseArgOf_call hname hspoken fun n he => by
      cases value with
      | var m => exact hvar m rfl
      | _ => cases he
    have hentry : (writeDbVar libc vars name value).db name = some (argToString libc value) :=
      Function.update_self _ _ _
    rw [getDbVar, hentry]
    simp only [if_neg hspoken.ne_empty, hread, convFnArg_toFnArg hprint, Option.getD_some]

lemma Coherent.lookupVar (h : Coherent libc vars) (name : String) :
    Coherent libc (lookupVar (parseArgOf libc) vars name).2 := by
  rcases lookupVar_cases (parseArgOf libc) vars name with ⟨v,-,hl⟩ | ⟨-,hl⟩ | ⟨value,hc,hvalue,htype,hl⟩
  · rw [hl]
    exact h
  · rw [hl]
    exact h
  · rw [hl]
    refine ⟨h.distinct.cacheDbVar hc,fun m var hm => ?_⟩
    rw [cached_cacheDbVar hc] at hm
    by_cases he : m = name
    · rw [if_pos he] at hm
      obtain rfl := Option.some.inj hm
      subst he hvalue
      refine ⟨htype,?_⟩
      cases hdb : vars.db m with
      | none => simp [getDbVar, hdb, Arg.type] at htype
      | some text => exact ⟨text,hdb,fun _ => rfl⟩
    · rw [if_neg he] at hm
      exact h.entry m var hm

/-- A value comes into the cache and the database at the same time. -/
lemma Coherent.written {vars' : VarStore} (h : Coherent libc vars) (hname : IsName name)
    (hvalue : value.Settable) (hdistinct : vars'.Distinct) (hdb : vars'.db = vars.db)
    (hnew : ∀ var, vars'.cached name = some var → var.value = value)
    (hold : ∀ m, m ≠ name → vars'.cached m = vars.cached m) :
    Coherent libc (writeDbVar libc vars' name value) := by
  refine ⟨hdistinct,fun m var hm => ?_⟩
  by_cases he : m = name
  · subst he
    rw [hnew var hm]
    exact ⟨hvalue.type_ne_none,_,Function.update_self _ _ _,getDbVar_writeDbVar hname hvalue⟩
  · obtain ⟨htype,text,htext,hread⟩ := h.entry m var ((hold m he).symm.trans hm)
    have hentry : (writeDbVar libc vars' name value).db m = vars.db m := by
      rw [← hdb]
      exact Function.update_of_ne he _ _
    refine ⟨htype,text,hentry.trans htext,fun hfloat => ?_⟩
    rw [← hread hfloat, getDbVar, getDbVar, hentry]

lemma Coherent.addVar (h : Coherent libc vars) (hname : IsName name) (hvalue : value.Settable) :
    Coherent libc (addVar libc (parseArgOf libc) vars name value).2.1 := by
  rcases addVar_cases libc (parseArgOf libc) vars name value with
    ⟨-,heq⟩ | ⟨hc,-,heq⟩ | ⟨var,hvar,-,-,heq⟩
  · rw [heq]
    exact h.lookupVar name
  · rw [heq]
    refine h.written hname hvalue (h.distinct.cacheDbVar hc) rfl (fun var hnew => ?_) fun m hm => ?_
    · rw [cached_cacheDbVar hc, if_pos rfl] at hnew
      rw [← Option.some.inj hnew]
    · rw [cached_cacheDbVar hc, if_neg hm]
  · rw [heq]
    have hlookup := h.lookupVar name
    refine hlookup.written hname hvalue (hlookup.distinct.overwrite name value) rfl (fun v hnew => ?_)
      fun m hm => ?_
    · rw [cached_overwrite, if_pos rfl, hvar] at hnew
      rw [← Option.some.inj hnew]
    · rw [cached_overwrite, if_neg hm]

lemma Coherent.deleteVar (h : Coherent libc vars) (name : String) :
    Coherent libc (deleteVar vars name).2 := by
  rcases deleteVar_cases h.distinct name with ⟨var,-,-,-,hdistinct,hcached,hdb⟩ | ⟨-,heq⟩
  · refine ⟨hdistinct,fun m v hm => ?_⟩
    rw [hcached] at hm
    by_cases he : m = name
    · rw [if_pos he] at hm
      cases hm
    · rw [if_neg he] at hm
      have hentry : (Xcpmd.deleteVar vars name).2.db m = vars.db m := by
        rw [hdb, Function.update_of_ne he]
      obtain ⟨htype,text,htext,hread⟩ := h.entry m v hm
      refine ⟨htype,text,hentry.trans htext,fun hfloat => ?_⟩
      rw [← hread hfloat, getDbVar, getDbVar, hentry]
  · rw [heq]
    exact h

lemma coherent_of_cache_nil (h : vars.cache = []) : Coherent libc vars := by
  refine ⟨by simp [VarStore.Distinct, h],fun name var hvar => ?_⟩
  simp [VarStore.cached, h] at hvar

/-- The parser keeps the cache and the database in step. -/
lemma kept_coherent (libc : Libc) : Kept libc (parseArgOf libc) .varMap (Coherent libc) where
  lookupVar _ name h := h.lookupVar name
  addVar _ _ _ _ hname harg hvar h := h.addVar hname ⟨_,harg,hvar,rfl⟩

/-- One operation keeps them in step. -/
lemma Coherent.varStep {vars' : VarStore} {op : VarOp} (h : Coherent libc vars) (hop : op.Readable)
    (hstep : varStep libc vars op = .ok vars') : Coherent libc vars' := by
  cases op with
  | addVar name value =>
    obtain rfl := Except.ok.inj hstep
    exact h.addVar hop.1 hop.2
  | lookupVar name =>
    obtain rfl := Except.ok.inj hstep
    exact h.lookupVar name
  | resolveVar name =>
    obtain rfl := Except.ok.inj hstep
    rw [resolveVar_vars]
    exact h.lookupVar name
  | deleteVar name =>
    obtain rfl := Except.ok.inj hstep
    exact h.deleteVar name
  | deleteVars =>
    obtain rfl := Except.ok.inj hstep
    exact coherent_of_cache_nil rfl
  | deleteCachedVars =>
    obtain rfl := Except.ok.inj hstep
    exact coherent_of_cache_nil rfl
  | parseVar text =>
    obtain ⟨r,hr,hstep⟩ := bind_eq_ok.mp hstep
    obtain rfl := Except.ok.inj hstep
    exact parseVar_keeps (kept_coherent libc) h hr
  | parseDbVars dump =>
    obtain ⟨l,hl,hstep⟩ := bind_eq_ok.mp hstep
    obtain rfl := Except.ok.inj hstep
    exact parseDbVars_keeps (kept_coherent libc) h hl

/-- A variable that was dropped from the cache is read back as it was. -/
lemma Coherent.lookupVar_deleteCachedVars (h : Coherent libc vars)
    (hfloat : ∀ var, vars.cached name = some var → var.value.type ≠ .float) :
    (Xcpmd.lookupVar (parseArgOf libc) (deleteCachedVars vars) name).1.map DbVar.value =
      (Xcpmd.lookupVar (parseArgOf libc) vars name).1.map DbVar.value := by
  have hdb : getDbVar (parseArgOf libc) (deleteCachedVars vars) name =
      getDbVar (parseArgOf libc) vars name := rfl
  rw [lookupVar_eq, lookupVar_eq, hdb]
  have hempty : (deleteCachedVars vars).cached name = none := rfl
  rw [hempty]
  cases hc : vars.cached name with
  | none =>
    dsimp only
    split_ifs
    · rfl
    · rfl
  | some var =>
    obtain ⟨htype,-,-,hread⟩ := h.entry name var hc
    rw [hread (hfloat var hc)]
    simp only [if_neg htype, Option.map_some]

/-- After any operations on variables, the names in the cache are distinct and every cached variable has
an entry, which `parse_arg` reads as the very value that is cached; so a look-up gives the same value
when the cache was dropped before it. -/
theorem cache_coherent {ops : List VarOp} (hops : ∀ op ∈ ops, op.Readable)
    (h : Machine.perform (Xcpmd.varStep libc) ⟨[], fun _ => none⟩ ops = .ok vars) :
    (vars.cache.map DbVar.name).Nodup ∧
    (∀ var ∈ vars.cache, ∃ text, vars.db var.name = some text ∧
      (var.value.type ≠ .float →
        parseArgOf libc (var.name ++ "(" ++ text ++ ")") = some var.value)) ∧
    ∀ name, (∀ var ∈ vars.cache, var.name = name → var.value.type ≠ .float) →
      (Xcpmd.lookupVar (parseArgOf libc) (deleteCachedVars vars) name).1.map DbVar.value =
        (Xcpmd.lookupVar (parseArgOf libc) vars name).1.map DbVar.value := by
  have hcoherent : Coherent libc vars := (Meets.of_forall hops _).invariant
    (fun _ _ _ hs hop hstep => hs.varStep hop hstep) coherent_empty h
  refine ⟨hcoherent.distinct,fun var hvar => ?_,fun name hfloat => ?_⟩
  · obtain ⟨htype,text,htext,hread⟩ := hcoherent.entry _ var (lookupKey_of_mem hcoherent.distinct hvar)
    refine ⟨text,htext,fun hfloat => ?_⟩
    exact parseArg_of_getDbVar htext htype (hread hfloat)
  · apply hcoherent.lookupVar_deleteCachedVars
    intro var hc
    exact hfloat var (mem_of_lookupKey hc) (key_of_lookupKey hc)

end Coherent

/-- Two variables are set, the cache is dropped, and one of them is read back. -/
def limitOps : List VarOp :=
  [.parseVar "limit(-75)", .addVar "note" (.str "a b"), .deleteCachedVars, .resolveVar "limit"]

theorem cache_coherent_limit :
    ∃ vars, Machine.perform (varStep zeroLibc) ⟨[], fun _ => none⟩ limitOps = .ok vars ∧
      vars.cache = [⟨"limit", .int (-75), 0⟩] ∧
      ∃ text, vars.db "limit" = some text ∧
        parseArgOf zeroLibc ("limit" ++ "(" ++ text ++ ")") = some (.int (-75)) := by
  have hrun : (Machine.perform (varStep zeroLibc) ⟨[], fun _ => none⟩ limitOps).toOption.map VarStore.cache =
      some [⟨"limit", .int (-75), 0⟩] := by decide
  have hops : ∀ op ∈ limitOps, op.Readable := by
    have hname : IsName "note" := by decide
    have htext : IsText "a b" := by decide
    have hnote : (VarOp.addVar "note" (.str "a b")).Readable := ⟨hname,.str "a b",htext,by simp,rfl⟩
    simp only [limitOps, List.forall_mem_cons, List.not_mem_nil, false_imp_iff, implies_true, and_true]
    exact ⟨trivial,hnote,trivial,trivial⟩
  obtain ⟨vars,hvars,hcache⟩ := map_toOption_eq_some.mp hrun
  obtain ⟨-,hentry,-⟩ := cache_coherent hops hvars
  obtain ⟨text,htext,hread⟩ := hentry ⟨"limit", .int (-75), 0⟩ (by simp [hcache])
  exact ⟨vars,hvars,hcache,text,htext,hread (by decide)⟩

end Xctools.Xcpmd
