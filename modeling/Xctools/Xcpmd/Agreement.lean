import Mathlib.Data.List.Perm.Basic
import Xctools.Xcpmd.Coherence
import Xctools.Xcpmd.Filing
import Xctools.Xcpmd.Survival

/-! Stored and loaded rules agree. After every request the entries below the rules' node are those of the
loaded rules and are read as them, so that loading the policy from the database loads the same rules
again; a name that is more than one segment of a path is where this ends. -/
namespace Xctools.Xcpmd
open Machine

section Written
variable {libc : Libc} {parseArg : String → Option Arg} {vars vars' : VarStore} {name : String} {value : Arg}

/-- Every variable is cached, and its entry is what was printed for it. -/
structure Written (libc : Libc) (vars : VarStore) : Prop where
  distinct : vars.Distinct
  entry : ∀ name, vars.db name = (vars.cached name).map fun var => argToString libc var.value
  formed : ∀ name var, vars.cached name = some var → IsName name ∧ var.value.Settable

lemma written_empty : Written libc ⟨[], fun _ => none⟩ where
  distinct := List.nodup_nil
  entry _ := rfl
  formed name var h := by cases h

/-- There is nothing in the database that a look-up could bring into the cache. -/
lemma Written.lookupVar (h : Written libc vars) (parseArg : String → Option Arg) (name : String) :
    (lookupVar parseArg vars name).2 = vars := by
  rcases lookupVar_cases parseArg vars name with ⟨v,-,hl⟩ | ⟨-,hl⟩ | ⟨value,hc,hvalue,htype,-⟩
  · rw [hl]
  · rw [hl]
  · have hdb : vars.db name = none := by rw [h.entry, hc, Option.map_none]
    rw [hvalue, getDbVar, hdb] at htype
    exact absurd rfl htype

lemma Written.addVar (h : Written libc vars) (hname : IsName name) (hvalue : value.Settable) :
    Written libc (addVar libc parseArg vars name value).2.1 := by
  rcases addVar_cases libc parseArg vars name value with ⟨-,heq⟩ | ⟨hc,-,heq⟩ | ⟨var,hvar,-,-,heq⟩
  · rw [heq, h.lookupVar]
    exact h
  · rw [heq]
    refine ⟨h.distinct.cacheDbVar hc,fun m => ?_,fun m v hm => ?_⟩
    · change Function.update vars.db name _ m = ((cacheDbVar vars name value).cached m).map _
      rw [Function.update_apply, cached_cacheDbVar hc, h.entry]
      split_ifs
      · rfl
      · rfl
    · change (cacheDbVar vars name value).cached m = some v at hm
      rw [cached_cacheDbVar hc] at hm
      split_ifs at hm with he
      · rw [he, ← Option.some.inj hm]
        exact ⟨hname,hvalue⟩
      · exact h.formed m v hm
  · rw [heq, h.lookupVar]
    rw [h.lookupVar] at hvar
    refine ⟨h.distinct.overwrite name value,fun m => ?_,fun m v hm => ?_⟩
    · change Function.update vars.db name _ m = ((overwrite vars name value).cached m).map _
      rw [Function.update_apply, cached_overwrite, h.entry]
      split_ifs
      · rw [hvar]
        rfl
      · rfl
    · change (overwrite vars name value).cached m = some v at hm
      rw [cached_overwrite, hvar] at hm
      split_ifs at hm with he
      · rw [he, ← Option.some.inj hm]
        exact ⟨hname,hvalue⟩
      · exact h.formed m v hm

lemma Written.deleteVar (h : Written libc vars) (name : String) : Written libc (deleteVar vars name).2 := by
  rcases deleteVar_cases h.distinct name with ⟨var,-,-,-,hdistinct,hcached,hdb⟩ | ⟨-,heq⟩
  · refine ⟨hdistinct,fun m => ?_,fun m v hm => ?_⟩
    · rw [hdb, Function.update_apply, hcached, h.entry]
      split_ifs
      · rfl
      · rfl
    · rw [hcached] at hm
      split_ifs at hm
      exact h.formed m v hm
  · rw [heq]
    exact h

lemma Written.changeRef {n : ℤ} (h : Written libc vars)
    (hchange : changeRef parseArg n vars name = .ok vars') : Written libc vars' := by
  obtain ⟨-,rfl⟩ := changeRef_eq_ok hchange
  rw [h.lookupVar]
  have hcached : ∀ m, (({ vars with cache := addRefs n name vars.cache } : VarStore).cached m).map DbVar.value =
      (vars.cached m).map DbVar.value := by
    intro m
    rw [cached_addRefs]
    split_ifs with he
    · rw [he, Option.map_map]
      rfl
    · rfl
  refine ⟨h.distinct.addRefs n name,fun m => ?_,fun m v hm => ?_⟩
  · have hentry := congrArg (Option.map (argToString libc)) (hcached m)
    rw [Option.map_map, Option.map_map] at hentry
    exact (h.entry m).trans hentry.symm
  · have hvalue := hcached m
    rw [hm, Option.map_some] at hvalue
    obtain ⟨w,hw,hv⟩ := Option.map_eq_some_iff.mp hvalue.symm
    obtain ⟨hname,hset⟩ := h.formed m w hw
    exact ⟨hname,hv ▸ hset⟩

lemma Written.changeRefs {n : ℤ} {l : List String} (h : Written libc vars)
    (hchange : l.foldlM (Xcpmd.changeRef parseArg n) vars = .ok vars') : Written libc vars' :=
  perform_invariant (fun _ _ _ hv hstep => Written.changeRef hv hstep) h hchange

end Written

section Sourced
variable {ε : Type} {libc : Libc} {reg : Registry ε} {s : Engine ε} {r : Rule ε}

/-- An argument that the parser hands over: one that is printed so that it can be read back, or a
float. -/
def Arg.Read (arg : Arg) : Prop := arg.Printable ∨ arg.type = .float

/-- A rule that was put together from what the parser read. -/
structure Rule.Sourced (reg : Registry ε) (r : Rule ε) : Prop extends r.Registered reg where
  conditionNames : ∀ c ∈ r.conditions, IsName c.type.name ∧ ∀ arg ∈ c.args, arg.Read
  callNames : ∀ a ∈ r.actions ++ r.undos, IsName a.type.name ∧ ∀ arg ∈ a.args, arg.Read

/-- The arguments of a rule are integers, booleans, strings and variables. -/
def Rule.FloatFree (r : Rule ε) : Prop := ∀ call ∈ r.calls, ∀ arg ∈ call.2.1, arg.type ≠ .float

lemma Rule.Sourced.writable (h : r.Sourced reg) (hfloat : r.FloatFree) : r.Writable := by
  obtain ⟨hconds,hcalls⟩ := List.forall_mem_append.mp hfloat
  rw [List.forall_mem_map] at hconds hcalls
  refine ⟨fun c hc => ?_,fun a ha => ?_⟩
  · obtain ⟨hname,hargs⟩ := h.conditionNames c hc
    exact ⟨hname,fun arg harg => (hargs arg harg).resolve_right (hconds c hc arg harg)⟩
  · obtain ⟨hname,hargs⟩ := h.callNames a ha
    exact ⟨hname,fun arg harg => (hargs arg harg).resolve_right (hcalls a ha arg harg)⟩

lemma read_convFnArg {arg : FnArg} (h : arg.Formed) : (convFnArg arg).Read := by
  cases arg with
  | var name => exact .inl h
  | float bits => exact .inr rfl
  | undetermined => exact h.elim
  | int i =>
    have hset : (convFnArg (.int i)).Settable := ⟨.int i,h,by simp,rfl⟩
    exact .inl (hset.cases.resolve_left (by simp [convFnArg])).1
  | str text => exact .inl h
  | bool b => exact .inl trivial

lemma forall_read_convFnArg {fn : Fn} (h : fn.Formed) : ∀ arg ∈ fn.args.map convFnArg, arg.Read := by
  rw [List.forall_mem_map]
  exact fun arg harg => read_convFnArg (h.args arg harg)

lemma knownAction_sourced {fns : List Fn} (h : ∀ fn ∈ fns, fn.Formed) :
    ∀ a ∈ fns.filterMap (knownAction reg), lookupActionType reg a.type.name = some a.type ∧
      IsName a.type.name ∧ ∀ arg ∈ a.args, arg.Read := by
  intro a ha
  obtain ⟨fn,hfn,hknown⟩ := List.mem_filterMap.mp ha
  obtain ⟨type,htype,rfl⟩ := Option.map_eq_some_iff.mp hknown
  have hname : type.name = fn.name := by simpa using List.find?_some htype
  refine ⟨?_,?_,forall_read_convFnArg (h fn hfn)⟩
  · rw [hname, htype]
  · rw [hname]
    exact (h fn hfn).name

lemma knownCondition_sourced {fns : List Fn} (h : ∀ fn ∈ fns, fn.Formed) :
    ∀ c ∈ fns.filterMap (knownCondition reg), lookupConditionType reg c.1.name = some c.1 ∧
      IsName c.1.name ∧ ∀ arg ∈ c.2.2, arg.Read := by
  intro c hc
  obtain ⟨fn,hfn,hknown⟩ := List.mem_filterMap.mp hc
  obtain ⟨type,htype,rfl⟩ := Option.map_eq_some_iff.mp hknown
  have hname : type.name = fn.name := by simpa using List.find?_some htype
  refine ⟨?_,?_,forall_read_convFnArg (h fn hfn)⟩
  · rw [hname, htype]
  · rw [hname]
    exact (h fn hfn).name

variable [DecidableEq ε]

lemma sourced_buildRule {parsed : ParsedRule} (h : parsed.Formed) (s : Engine ε) :
    (buildRule reg s parsed).rule.Sourced reg := by
  obtain ⟨-,hconds,hactions,hundos⟩ := RuleShape.mk.inj (@shape_buildRule ε reg _ s parsed)
  have hcond : ∀ c ∈ (buildRule reg s parsed).rule.conditions, lookupConditionType reg c.type.name =
      some c.type ∧ IsName c.type.name ∧ ∀ arg ∈ c.args, arg.Read := by
    intro c hc
    have hshape : c.shape ∈ parsed.conditions.filterMap (knownCondition reg) := by
      rw [← hconds]
      exact List.mem_map_of_mem hc
    exact knownCondition_sourced h.conditions c.shape hshape
  have hcall : ∀ a ∈ (buildRule reg s parsed).rule.actions ++ (buildRule reg s parsed).rule.undos,
      lookupActionType reg a.type.name = some a.type ∧ IsName a.type.name ∧ ∀ arg ∈ a.args, arg.Read := by
    rw [hactions, hundos, List.forall_mem_append]
    exact ⟨knownAction_sourced h.actions,knownAction_sourced h.undos⟩
  exact ⟨⟨fun c hc => (hcond c hc).1,fun a ha => (hcall a ha).1⟩,fun c hc => (hcond c hc).2,
    fun a ha => (hcall a ha).2⟩

/-- What requests keep: the store, the account of the variables and their entries, and where rules come
from. -/
structure Stocked (libc : Libc) (reg : Registry ε) (s : Engine ε) : Prop where
  filed : Filed reg s
  accounted : Accounted reg s
  sourced : ∀ r ∈ s.rules, r.Sourced reg
  written : Written libc s.vars

lemma stocked_start (value : ε → Value) : Stocked libc reg (Daemon.start value).engine where
  filed := filed_start value _
  accounted := accounted_start value _
  sourced := by simp [Daemon.start, Engine.start]
  written := written_empty

lemma Stocked.withVars (h : Stocked libc reg s) {vars : VarStore} (haccounted : Accounted reg (s.withVars vars))
    (hwritten : Written libc vars) : Stocked libc reg (s.withVars vars) where
  filed := h.filed.congr haccounted.linked rfl
  accounted := haccounted
  sourced := h.sourced
  written := hwritten

lemma Stocked.load {s' : Engine ε} (h : Stocked libc reg s) {parsed : ParsedRule} {code : ℕ} {err : String}
    (hparsed : parsed.Formed) (happly : applyRule reg s parsed = .ok (s', code, err)) :
    Stocked libc reg s' := by
  have hb : Built reg s (buildRule reg s parsed) := built_buildRule s parsed
  have hvalidated : Written libc
      (validateRule reg (buildRule reg s parsed).engine (buildRule reg s parsed).rule).2.2 := by
    apply validateRule_keeps
    · intro vars name hv
      rw [hv.lookupVar]
      exact hv
    · rw [hb.vars]
      exact h.written
  refine ⟨h.filed.load happly,h.accounted.load happly,?_,?_⟩
  · rcases applyRule_spec h.accounted.linked happly with ⟨-,-,vars',-,-,rfl,-⟩ | ⟨-,-,vars,-,-,rfl,-⟩
    · rw [loadedWith, hb.rules, List.forall_mem_append, List.forall_mem_singleton]
      exact ⟨h.sourced,sourced_buildRule hparsed s⟩
    · rw [rejectedWith, hb.rules]
      exact h.sourced
  · rcases applyRule_spec h.accounted.linked happly with
      ⟨text,vars,vars',hv,hinc,rfl,-⟩ | ⟨ruleErr,text,vars,hv,-,rfl,-⟩
    · rw [hv] at hvalidated
      exact hvalidated.changeRefs hinc
    · rw [hv] at hvalidated
      exact hvalidated

lemma stocked_kept (libc : Libc) (reg : Registry ε) : PolicyKept libc reg (Stocked libc reg) where
  lookupVar s name h := by
    apply h.withVars ((accounted_kept libc reg).lookupVar s name h.accounted)
    rw [h.written.lookupVar]
    exact h.written
  addVar s name arg hname harg hvar h :=
    h.withVars ((accounted_kept libc reg).addVar s name arg hname harg hvar h.accounted)
      (h.written.addVar hname ⟨arg,harg,hvar,rfl⟩)
  applyRule _ _ _ _ _ hparsed h happly := h.load hparsed happly

lemma Stocked.without (h : Stocked libc reg s) (hr : r ∈ s.rules) {vars : VarStore}
    (hvars : r.varNames.foldlM (changeRef reg.parseArg (-1)) s.vars = .ok vars) :
    Stocked libc reg (s.without r vars) where
  filed := h.filed.without r vars
  accounted := h.accounted.without hr hvars
  sourced q hq := h.sourced q (mem_rules_without hq).1
  written := h.written.changeRefs hvars

lemma Stocked.serve {d d' : Daemon ε} {rpc : Rpc} (h : Stocked libc reg d.engine) (hrpc : rpc ≠ .clearVars)
    (hstep : serve libc reg d rpc = .ok d') : Stocked libc reg d'.engine := by
  apply serve_keeps (stocked_kept libc reg) (fun _ ht => ht.accounted.linked) _ _ _ h _ hstep
  · exact fun t q vars ht hq hvars => ht.without hq hvars
  · intro t name ht
    apply ht.withVars _ (ht.written.deleteVar name)
    exact ht.accounted.withVars (ht.accounted.counted.accounts.deleteVar name)
  · intro t ht hnil
    apply ht.withVars _ written_empty
    exact ht.accounted.cleared (by rw [Engine.varNames, hnil, List.flatMap_nil])
  · exact fun he => absurd he hrpc

end Sourced

section Reading
variable {libc : Libc} {parseArg : String → Option Arg} {vars vars' vars'' : VarStore} {name : String}
  {value : Arg}

/-- What was cached still is, with the same type. -/
def Extends (vars vars' : VarStore) : Prop :=
  ∀ m, (vars.cached m).isSome = true → (vars'.cached m).isSome = true ∧ vars'.typeOf m = vars.typeOf m

lemma Extends.refl (vars : VarStore) : Extends vars vars := fun _ hm => ⟨hm,rfl⟩

lemma Extends.trans (h : Extends vars vars') (h' : Extends vars' vars'') : Extends vars vars'' := by
  intro m hm
  obtain ⟨hcached,htype⟩ := h m hm
  obtain ⟨hcached',htype'⟩ := h' m hcached
  exact ⟨hcached',htype'.trans htype⟩

lemma extends_addVar (libc : Libc) (parseArg : String → Option Arg) (vars : VarStore) (name : String)
    (value : Arg) : Extends vars (addVar libc parseArg vars name value).2.1 := by
  intro m hm
  refine ⟨?_,typeOf_addVar hm⟩
  obtain ⟨var,hvar⟩ := Option.isSome_iff_exists.mp hm
  rcases addVar_cases libc parseArg vars name value with ⟨-,heq⟩ | ⟨hc,-,heq⟩ | ⟨v,hv,-,-,heq⟩
  · rw [heq, cached_lookupVar_of_cached hvar]
    rfl
  · rw [heq]
    change ((cacheDbVar vars name value).cached m).isSome = true
    rw [cached_cacheDbVar hc]
    split_ifs
    · rfl
    · exact hm
  · rw [heq]
    change ((overwrite (lookupVar parseArg vars name).2 name value).cached m).isSome = true
    rw [cached_overwrite]
    split_ifs
    · rw [hv]
      rfl
    · rw [cached_lookupVar_of_cached hvar]
      rfl

lemma extends_changeRefs {n : ℤ} {l : List String} (h : l.foldlM (changeRef parseArg n) vars = .ok vars') :
    Extends vars vars' :=
  fun _ hm => changeRefs_typeOf hm h

/-- Counting leaves the database alone. -/
lemma db_changeRefs {n : ℤ} {l : List String} (h : l.foldlM (changeRef parseArg n) vars = .ok vars') :
    vars'.db = vars.db := by
  apply perform_invariant (I := fun v : VarStore => v.db = vars.db) _ rfl h
  intro v m v' hv hstep
  obtain ⟨-,rfl⟩ := changeRef_eq_ok hstep
  rw [← hv]
  rcases lookupVar_cases parseArg v m with ⟨w,-,hl⟩ | ⟨-,hl⟩ | ⟨w,-,-,-,hl⟩
  · rw [hl]
  · rw [hl]
  · rw [hl]
    rfl

/-- The entries of floats are read as floats. -/
def FloatsReadable (libc : Libc) (parseArg : String → Option Arg) (vars : VarStore) : Prop :=
  ∀ name text, vars.db name = some text → vars.typeOf name = .float →
    ∃ bits, Spoken libc parseArg text.toList (.float bits)

/-- An entry of the database is read as a value of the type that is cached. -/
lemma Written.spoken (h : Written libc vars) (hfloat : FloatsReadable libc parseArg vars) {text : String}
    (hentry : vars.db name = some text) : ∃ arg, Spoken libc parseArg text.toList arg ∧
      (∀ n, arg ≠ .var n) ∧ arg ≠ .undetermined ∧ IsName name ∧ (vars.cached name).isSome = true ∧
      vars.typeOf name = (convFnArg arg).type := by
  have hread := hfloat name text hentry
  rw [h.entry] at hentry
  obtain ⟨var,hvar,rfl⟩ := Option.map_eq_some_iff.mp hentry
  obtain ⟨hname,hset⟩ := h.formed name var hvar
  have hsome : (vars.cached name).isSome = true := by rw [hvar]; rfl
  rcases hset.cases with ⟨bits,hbits⟩ | ⟨hprint,hnovar⟩
  · have htype : vars.typeOf name = .float := by
      rw [typeOf_eq hvar, hbits]
      rfl
    obtain ⟨bits',hspoken⟩ := hread htype
    exact ⟨.float bits',hspoken,by simp,by simp,hname,hsome,htype⟩
  · refine ⟨var.value.toFnArg,spoken_argToString hprint,?_,?_,hname,hsome,?_⟩
    · intro n he
      cases hv : var.value with
      | var m => exact hnovar m hv
      | _ =>
        rw [hv] at he
        cases he
    · intro he
      cases hv : var.value with
      | none =>
        rw [hv] at hprint
        exact hprint
      | _ =>
        rw [hv] at he
        cases he
    · rw [typeOf_eq hvar, convFnArg_toFnArg hprint]

lemma addVar_of_type (hc : (vars.cached name).isSome = true) (htype : vars.typeOf name = value.type) :
    (addVar libc parseArg vars name value).1 = true := by
  obtain ⟨var,hvar⟩ := Option.isSome_iff_exists.mp hc
  rw [typeOf_eq hvar] at htype
  rw [addVar, lookupVar_of_cached hvar]
  simp only [htype, ne_eq, not_true_eq_false, if_false]
  split_ifs
  · rfl
  · rfl

lemma getVarFromMap_append {varMap : VarMap} {arg : FnArg} {m : String} (hne : m ≠ name)
    (h : (getVarFromMap varMap m).isSome = false) :
    (getVarFromMap (varMap ++ [(name, arg)]) m).isSome = false := by
  have hlast : [(name, arg)].find? (fun entry => entry.1 = m) = none := by simp [Ne.symm hne]
  unfold getVarFromMap at h ⊢
  rw [List.find?_append, hlast, Option.or_none]
  exact h

/-- They still are when the entries are the same and the types too. -/
lemma FloatsReadable.extends (h : FloatsReadable libc parseArg vars) (hw : Written libc vars)
    (hext : Extends vars vars') (hdb : vars'.db = vars.db) : FloatsReadable libc parseArg vars' := by
  intro name text hentry htype
  rw [hdb] at hentry
  have hcached : (vars.cached name).isSome = true := by
    rw [hw.entry] at hentry
    obtain ⟨var,hvar,-⟩ := Option.map_eq_some_iff.mp hentry
    rw [hvar]
    rfl
  exact h name text hentry ((hext name hcached).2.symm.trans htype)

/-- The entries of the database are read without an error, and no variable gets another type. -/
lemma Written.parseDbVars (h : Written libc vars) (hfloat : FloatsReadable libc parseArg vars)
    {entries : List (String × String)} (hnames : (entries.map Prod.fst).Nodup)
    (hentries : ∀ e ∈ entries, vars.db e.1 = some e.2) :
    ∃ l, parseDbVars libc parseArg vars (some entries) = .ok l ∧ l.success = true ∧ Extends vars l.vars := by
  have hloop : ∀ entries : List (String × String), (entries.map Prod.fst).Nodup →
      (∀ e ∈ entries, vars.db e.1 = some e.2) → ∀ l : VarsLoad, l.success = true → Extends vars l.vars →
      (∀ e ∈ entries, (getVarFromMap l.varMap e.1).isSome = false) →
      ∃ l', entries.foldlM (parseDbVar libc parseArg) l = .ok l' ∧ l'.success = true ∧ Extends vars l'.vars := by
    intro entries
    induction entries with
    | nil => exact fun _ _ l hl hext _ => ⟨l,rfl,hl,hext⟩
    | cons e entries ih =>
      intro hnames hentries l hl hext hmap
      obtain ⟨he,hentries⟩ := List.forall_mem_cons.mp hentries
      obtain ⟨hmap,hmaps⟩ := List.forall_mem_cons.mp hmap
      rw [List.map_cons, List.nodup_cons] at hnames
      obtain ⟨arg,hspoken,hvar,hundet,hname,hcached,htype⟩ := h.spoken hfloat he
      obtain ⟨d,hd,hvars,hret,hd'⟩ := @parseVarPersistent_call libc parseArg e.1 e.2 arg l.varMap l.vars
        hname hspoken hvar hundet hmap
      obtain ⟨hcached',htype'⟩ := hext e.1 hcached
      have hadded : (Xcpmd.addVar libc parseArg l.vars e.1 (convFnArg arg)).1 = true :=
        addVar_of_type hcached' (htype'.trans htype)
      have hstep : parseDbVar libc parseArg l e =
          .ok { l with varMap := d.varMap, message := d.message, vars := d.vars } := by
        rw [parseDbVar, hd, ok_bind, if_pos (hret.mpr hadded)]
        rfl
      rw [List.foldlM_cons, hstep, ok_bind]
      refine ih hnames.2 hentries
        { l with varMap := d.varMap, message := d.message, vars := d.vars } hl ?_ ?_
      · change Extends vars d.vars
        rw [hvars]
        exact hext.trans (extends_addVar libc parseArg l.vars e.1 _)
      · intro e' he'
        change (getVarFromMap d.varMap e'.1).isSome = false
        rw [hd', if_pos hadded]
        apply getVarFromMap_append _ (hmaps e' he')
        exact fun heq => hnames.1 (heq ▸ List.mem_map_of_mem he')
  exact hloop entries hnames hentries { vars } rfl (Extends.refl vars) fun _ _ => rfl

end Reading

section Reload
variable {ε : Type} {libc : Libc} {reg : Registry ε} {s : Engine ε} {r : Rule ε} {d d' : Daemon ε}

/-- What fits is accepted without a look into the database. -/
lemma Rule.Typed.checkAll {vars : VarStore} (h : r.Typed vars) :
    checkAll reg.parseArg vars r.calls = (none, vars) := by
  have hcalls : ∀ calls : List (String × List Arg × String), (∀ call ∈ calls, Fits vars call.1 call.2.1) →
      Xcpmd.checkAll reg.parseArg vars calls = (none, vars) := by
    intro calls
    induction calls with
    | nil => exact fun _ => rfl
    | cons call calls ih =>
      intro hfits
      obtain ⟨prototype,args,what⟩ := call
      obtain ⟨hcall,hrest⟩ := List.forall_mem_cons.mp hfits
      rw [Xcpmd.checkAll, hcall.checkPrototype]
      exact ih hrest
  exact hcalls r.calls h

lemma Rule.Acceptable.congr {t : Engine ε} (h : r.Acceptable reg s) (hfresh : ∀ q ∈ t.rules, q.id ≠ r.id)
    (hfound : t.vars.foundType reg.parseArg = s.vars.foundType reg.parseArg) : r.Acceptable reg t where
  id := h.id
  fresh := hfresh
  conditions := h.conditions
  calls := h.calls
  checked := by
    rw [checkAll_fst hfound]
    exact h.checked

/-- The texts of an entry are parsed into the items of a rule. -/
def Decodes (libc : Libc) (reg : Registry ε) (vars : VarStore) (json : DbTree) (r : Rule ε) : Prop :=
  ∃ conditions actions undos p fns, jsonRuleToParseable json = some (conditions, actions, undos) ∧
    parseTexts libc reg.parseArg [] vars conditions actions undos = .ok p ∧ p.applied = some fns ∧
    (ParsedRule.mk r.id fns.1 fns.2.1 fns.2.2).shape reg = r.shape

/-- The stored rules are the loaded ones: they have the same names, and the entry of each is read as the
rule. -/
structure Agrees (libc : Libc) (reg : Registry ε) (d : Daemon ε) : Prop where
  names : (d.rulesNode.children.map Prod.fst).Perm (d.engine.rules.map Rule.id)
  entries : ∀ r ∈ d.engine.rules, ∃ json, d.rulesNode.child r.id = some json ∧
    Decodes libc reg d.engine.vars json r

/-- Stored names are segments of paths, and so are the names of loaded rules where they agree. -/
lemma Agrees.flat (h : Agrees libc reg d) (hnode : Segmented d.rulesNode) : Flat d := by
  intro r hr
  apply hnode
  rw [h.names.mem_iff]
  exact List.mem_map_of_mem hr

variable [DecidableEq ε]

/-- A loaded rule would be accepted where it is not, and its variables have the types they had. -/
lemma Stocked.acceptable (h : Stocked libc reg s) (hr : r ∈ s.rules) {t : Engine ε} (ht : t.rules = [])
    (hvars : Extends s.vars t.vars) : r.Acceptable reg t where
  id := h.filed.id_ne_empty r hr
  fresh := by simp [ht]
  conditions := h.filed.linked.conditions_ne_nil r hr
  calls hnil := (h.filed.calls r hr).elim (fun hne => hne hnil.1) fun hne => hne hnil.2
  checked := by
    have htyped : r.Typed t.vars := (h.accounted.typed r hr).of_cached fun m hm =>
      hvars m ((h.accounted.typed r hr).cached hm)
    rw [htyped.checkAll]

/-- The rules can be deleted, which leaves the variables with their types and entries. -/
lemma Stocked.deleteRules (h : Stocked libc reg s) : ∃ t, deleteRules reg s = .ok t ∧ t.rules = [] ∧
    Stocked libc reg t ∧ Extends s.vars t.vars ∧ t.vars.db = s.vars.db := by
  have hloop : ∀ (l : List (Rule ε)) (t : Engine ε), Accounted reg t → (∀ q ∈ l, q ∈ t.rules) →
      (l.map Rule.addr).Nodup → ∃ t', l.foldlM (deleteRule reg) t = .ok t' := by
    intro l
    induction l with
    | nil => exact fun t _ _ _ => ⟨t,rfl⟩
    | cons r l ih =>
      intro t ht hl hnodup
      obtain ⟨hr,hl⟩ := List.forall_mem_cons.mp hl
      rw [List.map_cons, List.nodup_cons] at hnodup
      obtain ⟨vars,hvars,hleft⟩ := ht.release hr
      rw [List.foldlM_cons, ht.linked.deleteRule_eq hr, hvars, ok_bind, ok_bind]
      apply ih _ hleft _ hnodup.2
      intro q hq
      have hne : q.addr ≠ r.addr := fun he => hnodup.1 (List.mem_map.mpr ⟨q,hq,he⟩)
      exact List.mem_filter.mpr ⟨hl q hq,by simpa using hne⟩
  obtain ⟨t,ht⟩ := hloop s.rules s h.accounted (fun _ hq => hq) h.accounted.linked.ruleAddrs
  obtain ⟨⟨hstocked,hext,hdb⟩,hnil⟩ := deleteRules_invariant
    (P := fun t => Stocked libc reg t ∧ Extends s.vars t.vars ∧ t.vars.db = s.vars.db)
    (fun _ ht => ht.1.accounted.linked) (fun t q vars ht hq hvars =>
      ⟨ht.1.without hq hvars,ht.2.1.trans (extends_changeRefs hvars),(db_changeRefs hvars).trans ht.2.2⟩)
    ⟨h,Extends.refl _,rfl⟩ ht
  exact ⟨t,ht,hnil,hstocked,hext,hdb⟩

/-- The entry of an acceptable rule is loaded as a rule of its shape. -/
lemma parseDbRule_entryOf {varMap : VarMap} {dump : String → Dump} (hacc : r.Acceptable reg s)
    (hsourced : r.Sourced reg) (hfloat : r.FloatFree) (hdump : dump r.id = .tree (ruleToJson libc r)) :
    ∃ s' r', parseDbRule libc reg varMap dump s (entryOf libc r) = .ok s' ∧ s'.rules = s.rules ++ [r'] ∧
      r'.shape = r.shape ∧ s'.vars.foundType reg.parseArg = s.vars.foundType reg.parseArg := by
  obtain ⟨conditions,actions,undos,s',p,r',hjson,hparse,hret,hrules,hshape,hfound⟩ :=
    @parseRulePersistent_ruleToJson ε libc reg r s _ hacc hsourced.toRegistered (hsourced.writable hfloat) varMap
  refine ⟨s',r',?_,hrules,hshape,hfound⟩
  have hdump' : dump (entryOf libc r).1 = .tree (ruleToJson libc r) := hdump
  rw [parseDbRule, hdump']
  simp only [hjson]
  change parseRuleLogged libc reg s varMap (some r.id) conditions actions undos = .ok s'
  rw [parseRuleLogged, hparse, ok_bind]
  simp only [hret, ne_eq, not_true_eq_false, if_false]
  rfl

/-- The entries of acceptable rules of distinct names are loaded one after another. -/
lemma parseDbRules_entries {varMap : VarMap} {dump : String → Dump} {l : List (Rule ε)} {t : Engine ε}
    (hacc : ∀ r ∈ l, r.Acceptable reg s) (hsourced : ∀ r ∈ l, r.Sourced reg) (hfloat : ∀ r ∈ l, r.FloatFree)
    (hdump : ∀ r ∈ l, dump r.id = .tree (ruleToJson libc r))
    (hids : (t.rules.map Rule.id ++ l.map Rule.id).Nodup)
    (hfound : t.vars.foundType reg.parseArg = s.vars.foundType reg.parseArg) :
    ∃ t', (l.map (entryOf libc)).foldlM (parseDbRule libc reg varMap dump) t = .ok t' ∧
      t'.rules.map Rule.shape = t.rules.map Rule.shape ++ l.map Rule.shape := by
  induction l generalizing t with
  | nil => exact ⟨t,rfl,by rw [List.map_nil, List.append_nil]⟩
  | cons r l ih =>
    obtain ⟨hacc,haccs⟩ := List.forall_mem_cons.mp hacc
    obtain ⟨hsourced,hsourceds⟩ := List.forall_mem_cons.mp hsourced
    obtain ⟨hfloat,hfloats⟩ := List.forall_mem_cons.mp hfloat
    obtain ⟨hdump,hdumps⟩ := List.forall_mem_cons.mp hdump
    have hfresh : ∀ q ∈ t.rules, q.id ≠ r.id := fun q hq =>
      (List.nodup_append.mp hids).2.2 _ (List.mem_map_of_mem hq) _ List.mem_cons_self
    obtain ⟨t',r',hstep,hrules,hshape,hfound'⟩ :=
      parseDbRule_entryOf (hacc.congr hfresh hfound) hsourced hfloat hdump
    have hid : r'.id = r.id := (RuleShape.mk.inj hshape).1
    have hids' : (t'.rules.map Rule.id ++ l.map Rule.id).Nodup := by
      rw [hrules, List.map_append, List.map_singleton, hid, List.append_assoc, List.singleton_append]
      exact hids
    obtain ⟨u,hu,hshapes⟩ := ih haccs hsourceds hfloats hdumps hids' (hfound'.trans hfound)
    refine ⟨u,?_,?_⟩
    · rw [List.map_cons, List.foldlM_cons, hstep, ok_bind, hu]
    · rw [hshapes, hrules, List.map_append, List.map_singleton, hshape, List.append_assoc,
        List.singleton_append, List.map_cons]

/-- What the database answers when it holds the variables and the rules of a state: the entries of a
node come in any order, and a node that holds nothing may be absent. -/
structure Answers (d : Daemon ε) (vars : List (String × String)) (node : Dump) (dump : String → Dump) :
    Prop where
  names : (vars.map Prod.fst).Nodup
  vars : ∀ name text, (name, text) ∈ vars ↔ d.engine.vars.db name = some text
  node : (∃ entries, node = .tree (.node entries) ∧ entries.Perm d.rulesNode.children) ∨
    node = .absent ∧ d.rulesNode.children = []
  rule : ∀ name json, d.rulesNode.get (rulePath name) = some json → dump name = .tree json

/-- Where the entries are those of the loaded rules, the same rules are loaded from them. -/
theorem Stored.reload (hstored : Stored libc d) (h : Stocked libc reg d.engine) (hflat : Flat d)
    (hfloat : ∀ r ∈ d.engine.rules, r.FloatFree) {vars : List (String × String)} {node : Dump}
    {dump : String → Dump} (hanswers : Answers d vars node dump)
    (hread : FloatsReadable libc reg.parseArg d.engine.vars) :
    ∃ d', handle libc reg d (.loadPolicyFromDb (some vars) node dump) = .ok (d', none) ∧
      (d'.engine.rules.map Rule.shape).Perm (d.engine.rules.map Rule.shape) := by
  obtain ⟨t,ht,hnil,hstocked,hext,hdb⟩ := h.deleteRules
  obtain ⟨l,hl,hsuccess,hext'⟩ := hstocked.written.parseDbVars (hread.extends h.written hext hdb) hanswers.names
    fun e he => by
      rw [hdb]
      exact (hanswers.vars e.1 e.2).mp he
  have hload : ∀ {u : Engine ε}, parseDbRules libc reg (t.withVars l.vars) l.varMap node dump = .ok (true, u) →
      handle libc reg d (.loadPolicyFromDb (some vars) node dump) = .ok (⟨u, d.rulesNode⟩, none) := by
    intro u hu
    rw [handle, xcpmdLoadPolicyFromDb, ht, ok_bind, parseConfigFromDb, hl, ok_bind]
    simp only [hsuccess, if_true, hu, ok_bind]
    rfl
  rcases hanswers.node with ⟨entries,rfl,hperm⟩ | ⟨rfl,hempty⟩
  · -- the entries are those of the loaded rules in some order
    have hcomp := congrFun₂ (List.eq_map_comp_perm (entryOf libc)) entries d.engine.rules
    obtain ⟨rules,rfl,hrules⟩ := hcomp.mpr (hstored ▸ hperm)
    have hmem : ∀ r ∈ rules, r ∈ d.engine.rules := fun r hr => hrules.mem_iff.mp hr
    have hkeys : (d.rulesNode.children.map Prod.fst).Nodup := by
      rw [hstored, keys_entries]
      exact h.filed.ids
    have hdump : ∀ r ∈ rules, dump r.id = .tree (ruleToJson libc r) := by
      intro r hr
      apply hanswers.rule
      rw [rulePath_singleton (hflat r (hmem r hr)), Tree.get_singleton]
      apply Tree.child_of_mem hkeys
      rw [hstored]
      exact List.mem_map_of_mem (f := entryOf libc) (hmem r hr)
    have hacc : ∀ r ∈ rules, r.Acceptable reg (t.withVars l.vars) := fun r hr =>
      h.acceptable (hmem r hr) hnil (hext.trans hext')
    have hids : ((t.withVars l.vars).rules.map Rule.id ++ rules.map Rule.id).Nodup := by
      rw [show (t.withVars l.vars).rules = [] from hnil, List.map_nil, List.nil_append]
      exact (hrules.map Rule.id).nodup_iff.mpr h.filed.ids
    obtain ⟨u,hu,hshapes⟩ : ∃ u, (rules.map (entryOf libc)).foldlM (parseDbRule libc reg l.varMap dump)
        (t.withVars l.vars) = .ok u ∧
        u.rules.map Rule.shape = (t.withVars l.vars).rules.map Rule.shape ++ rules.map Rule.shape :=
      parseDbRules_entries hacc (fun r hr => h.sourced r (hmem r hr)) (fun r hr => hfloat r (hmem r hr))
        hdump hids rfl
    refine ⟨_,hload (u := u) ?_,?_⟩
    · rw [parseDbRules, hu]
      rfl
    · rw [hshapes, show (t.withVars l.vars).rules = [] from hnil, List.map_nil, List.nil_append]
      exact hrules.map Rule.shape
  · have hnone : d.engine.rules = [] := by
      rw [hstored, List.map_eq_nil_iff] at hempty
      exact hempty
    refine ⟨_,hload rfl,?_⟩
    rw [hnone]
    change (t.rules.map Rule.shape).Perm _
    rw [hnil]

lemma Stocked.decodes (h : Stocked libc reg s) (hr : r ∈ s.rules) (hfloat : r.FloatFree) :
    Decodes libc reg s.vars (ruleToJson libc r) r := by
  have hwrite := (h.sourced r hr).writable hfloat
  have hacc : r.Acceptable reg { s with rules := [] } := h.acceptable hr rfl (Extends.refl _)
  obtain ⟨conditions,actions,undos,p,hjson,hparse,-,happlied,-⟩ :=
    @parse_ruleToJson ε libc reg.parseArg r hwrite [] s.vars (hacc.resolved [])
  exact ⟨conditions,actions,undos,p,_,hjson,hparse,happlied,shape_parsed (h.sourced r hr).toRegistered hwrite⟩

lemma Stored.agrees (hstored : Stored libc d) (h : Stocked libc reg d.engine)
    (hfloat : ∀ r ∈ d.engine.rules, r.FloatFree) : Agrees libc reg d := by
  have hnames : d.rulesNode.children.map Prod.fst = d.engine.rules.map Rule.id := by
    rw [hstored, keys_entries]
  refine ⟨by rw [hnames],fun r hr => ⟨ruleToJson libc r,?_,h.decodes hr (hfloat r hr)⟩⟩
  apply Tree.child_of_mem
  · rw [hnames]
    exact h.filed.ids
  · rw [hstored]
    exact List.mem_map_of_mem (f := entryOf libc) hr

/-- A request that keeps rules and entries in step, in a state where the names of all rules are single
segments. -/
def Orderly (d : Daemon ε) (rpc : Rpc) : Prop := rpc.Storing ∧ Flat d

/-- The invariant of orderly runs. -/
structure InStep (libc : Libc) (reg : Registry ε) (d : Daemon ε) : Prop where
  stocked : Stocked libc reg d.engine
  segmented : Segmented d.rulesNode
  stored : Flat d → Stored libc d

lemma inStep_start (value : ε → Value) : InStep libc reg (Daemon.start value) where
  stocked := stocked_start value
  segmented := by simp [Segmented, Daemon.start, Tree.children]
  stored _ := rfl

lemma InStep.serve {rpc : Rpc} (h : InStep libc reg d) (hrpc : Orderly d rpc)
    (hd : serve libc reg d rpc = .ok d') : InStep libc reg d' := by
  have hfiling := serve_filing h.stocked.accounted hrpc.1 hd
  have hstocked : Stocked libc reg d'.engine := by
    apply h.stocked.serve _ hd
    rintro rfl
    exact hrpc.1
  refine ⟨hstocked,hfiling.segmented h.segmented,fun hflat => ?_⟩
  exact hfiling.stored h.stocked.filed hstocked.filed hrpc.2 hflat (h.stored hrpc.2)

/-- In every run of requests that change rules, as long as no loaded rule has a separator in its name,
the rules stored in the database are exactly the loaded ones, and loading the policy from the database
loads the same rules, if the entries of floats can be read. They are not where a rule with a separator
in its name is loaded. -/
theorem stored_rules_agree {value : ε → Value} {rpcs : List Rpc}
    (hmeets : Meets (Xcpmd.serve libc reg) Orderly (Daemon.start value) rpcs)
    (h : Machine.perform (Xcpmd.serve libc reg) (Daemon.start value) rpcs = .ok d)
    (hfloat : ∀ r ∈ d.engine.rules, r.FloatFree) :
    (Agrees libc reg d ↔ Flat d) ∧
    (Flat d → FloatsReadable libc reg.parseArg d.engine.vars → ∀ vars node dump, Answers d vars node dump →
      ∃ d', handle libc reg d (.loadPolicyFromDb (some vars) node dump) = .ok (d', none) ∧
        (d'.engine.rules.map Rule.shape).Perm (d.engine.rules.map Rule.shape)) := by
  have hinStep : InStep libc reg d := hmeets.invariant
    (fun _ _ _ ht hrpc hstep => ht.serve hrpc hstep) (inStep_start value) h
  refine ⟨⟨fun hagrees => hagrees.flat hinStep.segmented,fun hflat => ?_⟩,?_⟩
  · exact (hinStep.stored hflat).agrees hinStep.stocked hfloat
  · intro hflat hread vars node dump hanswers
    exact (hinStep.stored hflat).reload hinStep.stocked hflat hfloat hanswers hread

end Reload

/-- A dump of what is below a node. -/
def dumpOf (t : DbTree) (name : String) : Dump := (t.get (rulePath name)).elim .absent .tree

/-- A rule on a variable is stored as it is loaded, and is loaded again from the database. -/
theorem stored_rules_agree_low : ∃ d, zeroRun lowRpcs = .ok d ∧ d.engine.rules.map Rule.id = ["r"] ∧
    Agrees zeroLibc zeroRegistry d ∧ ∃ d', handle zeroLibc zeroRegistry d (.loadPolicyFromDb
      (some [("low", "10")]) (.tree (.node d.rulesNode.children)) (dumpOf d.rulesNode)) = .ok (d', none) ∧
        (d'.engine.rules.map Rule.shape).Perm (d.engine.rules.map Rule.shape) := by
  have hfirst : (serve zeroLibc zeroRegistry (Daemon.start EventId.resetValue)
      (.addVar "low" "10")).toOption.map (fun d => d.engine.rules.map Rule.id) = some [] := by decide +kernel
  have hrun : (zeroRun lowRpcs).toOption.map (fun d => (d.engine.rules.map Rule.id,
      d.engine.rules.flatMap fun r => r.calls.flatMap fun call => call.2.1.map Arg.type,
      d.engine.vars.cache)) = some (["r"], [.var], [⟨"low", .int 10, 1⟩]) := by decide +kernel
  have hmeets : Meets (serve zeroLibc zeroRegistry) Orderly (Daemon.start EventId.resetValue) lowRpcs := by
    refine ⟨⟨trivial,by simp [Flat, Daemon.start, Engine.start]⟩,fun d hd => ⟨⟨trivial,?_⟩,fun _ _ => trivial⟩⟩
    rw [hd] at hfirst
    have hnil : d.engine.rules = [] := List.map_eq_nil_iff.mp (Option.some.inj hfirst)
    simp [Flat, hnil]
  obtain ⟨d,hd,hval⟩ := map_toOption_eq_some.mp hrun
  obtain ⟨hids,hrest⟩ := Prod.mk.inj hval
  obtain ⟨htypes,hcache⟩ := Prod.mk.inj hrest
  have hfloat : ∀ r ∈ d.engine.rules, r.FloatFree := by
    intro r hr call hcall arg harg he
    have hmem : ArgType.float ∈ [ArgType.var] := by
      rw [← htypes, List.mem_flatMap]
      refine ⟨r,hr,List.mem_flatMap.mpr ⟨call,hcall,?_⟩⟩
      rw [← he]
      exact List.mem_map_of_mem harg
    simp at hmem
  have hflat : Flat d := by
    intro r hr
    have hmem : r.id ∈ ["r"] := by
      rw [← hids]
      exact List.mem_map_of_mem hr
    rw [List.mem_singleton.mp hmem]
    decide
  have hinStep : InStep zeroLibc zeroRegistry d := hmeets.invariant
    (fun _ _ _ ht hrpc hstep => ht.serve hrpc hstep) (inStep_start _) hd
  have hcached : ∀ name, d.engine.vars.cached name =
      if "low" = name then some ⟨"low", .int 10, 1⟩ else none := by
    intro name
    rw [VarStore.cached, hcache, lookupKey_cons, lookupKey_nil]
  have hdb : ∀ name, d.engine.vars.db name = if "low" = name then some "10" else none := by
    intro name
    rw [hinStep.stocked.written.entry, hcached]
    split_ifs
    · rfl
    · rfl
  have hread : FloatsReadable zeroLibc zeroRegistry.parseArg d.engine.vars := by
    intro name text _ htype
    rw [VarStore.typeOf, hcached] at htype
    split_ifs at htype
    · cases htype
    · cases htype
  have hanswers : Answers d [("low", "10")] (.tree (.node d.rulesNode.children)) (dumpOf d.rulesNode) := by
    refine ⟨by decide,fun name text => ?_,.inl ⟨_,rfl,.rfl⟩,fun name json hjson => ?_⟩
    · rw [hdb, List.mem_singleton, Prod.mk.injEq]
      split_ifs with he
      · simp [← he, eq_comm]
      · simp [Ne.symm he]
    · rw [dumpOf, hjson]
      rfl
  obtain ⟨hagrees,hreload⟩ := stored_rules_agree hmeets hd hfloat
  exact ⟨d,hd,hids,hagrees.mpr hflat,hreload hflat hread _ _ _ hanswers⟩

/-- A rule with a separator in its name. -/
def slashRpcs : List Rpc := [.addRule (some []) "a/b" "whileOverallBattLessThan(10)" "doNothing()" ""]

/-- Its entry comes to stand one level below, under the first segment, and is not loaded again. -/
theorem stored_rules_disagree : ∃ d, zeroRun slashRpcs = .ok d ∧ d.engine.rules.map Rule.id = ["a/b"] ∧
    d.rulesNode.children.map Prod.fst = ["a"] ∧ ¬ Agrees zeroLibc zeroRegistry d ∧
    ∃ d', handle zeroLibc zeroRegistry d (.loadPolicyFromDb (some [])
      (.tree (.node d.rulesNode.children)) (dumpOf d.rulesNode)) = .ok (d', none) ∧ d'.engine.rules = [] := by
  have hrun : (zeroRun slashRpcs).toOption.map (fun d => (d.engine.rules.map Rule.id,
      d.rulesNode.children.map Prod.fst,
      (handle zeroLibc zeroRegistry d (.loadPolicyFromDb (some [])
        (.tree (.node d.rulesNode.children)) (dumpOf d.rulesNode))).toOption.map fun p =>
          (p.2, p.1.engine.rules.map Rule.id))) = some (["a/b"], ["a"], some (none, [])) := by decide +kernel
  obtain ⟨d,hd,hval⟩ := map_toOption_eq_some.mp hrun
  obtain ⟨hids,hrest⟩ := Prod.mk.inj hval
  obtain ⟨hkeys,hload⟩ := Prod.mk.inj hrest
  have hdisagree : ¬ Agrees zeroLibc zeroRegistry d := by
    intro hagrees
    have hperm := hagrees.names
    rw [hids, hkeys, List.perm_singleton] at hperm
    revert hperm
    decide
  obtain ⟨⟨d',err⟩,hd',hp⟩ := map_toOption_eq_some.mp hload
  obtain ⟨rfl,hnil⟩ := Prod.mk.inj hp
  exact ⟨d,hd,hids,hkeys,hdisagree,d',hd',List.map_eq_nil_iff.mp hnil⟩

end Xctools.Xcpmd
