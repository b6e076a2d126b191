import Xctools.Xcpmd.RefCounts

/-! Loaded rules stay well typed. Types are checked once, when a rule is added, and variables are resolved
whenever an argument is read; what a prototype declares for an index is what `get_arg` brings. -/
namespace Xctools.Xcpmd
open Machine

/-- The letter a prototype has for an argument. -/
def declared (prototype : String) (index : ℕ) : Option Char :=
  if prototype = "n" then none else prototype.toList[2 * index]?

section Prototype
variable {types : List ArgType}

/-- The letters of the types stand at the even places. -/
lemma letters_getElem? (types : List ArgType) (index : ℕ) :
    ((types.map fun type => [type.letter]).intersperse [' ']).flatten[2 * index]? =
      types[index]?.map ArgType.letter := by
  induction types generalizing index with
  | nil => rfl
  | cons type types ih =>
    cases types with
    | nil =>
      cases index with
      | zero => rfl
      | succ index => rfl
    | cons type' types =>
      cases index with
      | zero => rfl
      | succ index => exact ih index

lemma declared_prototypeOf {index : ℕ} {letter : Char} (h : declared (prototypeOf types) index = some letter) :
    types[index]?.map ArgType.letter = some letter := by
  by_cases hnil : types = []
  · subst hnil
    cases h
  · rw [prototypeOf, if_neg hnil, declared] at h
    split_ifs at h
    rw [← letters_getElem?, ← h, String.toList_ofList]

/-- A prototype that has nothing against some types spells them. -/
lemma eq_of_prototypeError {prototype toCheck : String} (h : prototypeError prototype toCheck = none) :
    prototype = toCheck := by
  unfold prototypeError at h
  dsimp only at h
  split_ifs at h with hmany hfew hne
  exact not_not.mp hne

end Prototype

section Typed
variable {parseArg : String → Option Arg} {vars : VarStore} {args : List Arg} {prototype : String}

/-- Where a variable is cached, `get_arg` brings a value of its type. -/
lemma getArg_of_cached (h : ∀ m ∈ varNames args, (vars.cached m).isSome = true) {index : ℕ} {arg : Arg}
    (harg : args[index]? = some arg) :
    ∃ value, getArg parseArg vars args index = .ok value ∧ value.type = vars.argType arg := by
  unfold getArg
  rw [harg]
  cases arg with
  | var name =>
    obtain ⟨var,hvar⟩ := Option.isSome_iff_exists.mp
      (h name (mem_varNames.mpr (List.mem_of_getElem? harg)))
    refine ⟨var.value,?_,(typeOf_eq hvar).symm⟩
    simp only [lookupVar_of_cached hvar]
  | int i => exact ⟨_,rfl,rfl⟩
  | bool b => exact ⟨_,rfl,rfl⟩
  | float bits => exact ⟨_,rfl,rfl⟩
  | str s => exact ⟨_,rfl,rfl⟩
  | none => exact ⟨_,rfl,rfl⟩

/-- Arguments that fit a prototype have the types it declares. -/
lemma Fits.getArg (h : Fits vars prototype args) {index : ℕ} {letter : Char}
    (hletter : declared prototype index = some letter) :
    ∃ value, getArg parseArg vars args index = .ok value ∧ value.type.letter = letter := by
  rw [eq_of_prototypeError h.types] at hletter
  have hmap := declared_prototypeOf hletter
  rw [List.getElem?_map, Option.map_map] at hmap
  obtain ⟨arg,harg,hletter⟩ := Option.map_eq_some_iff.mp hmap
  obtain ⟨value,hvalue,htype⟩ := @getArg_of_cached parseArg _ _ h.cached _ _ harg
  exact ⟨value,hvalue,by rw [htype]; exact hletter⟩

end Typed

section Runs
variable {ε : Type} [DecidableEq ε] {libc : Libc} {reg : Registry ε}

/-- In every run of requests other than clearing the variables, every condition, action and undo of
every loaded rule still passes its check, and `get_arg` on an index of its prototype brings an argument
of the type declared there. -/
theorem rules_well_typed {value : ε → Value} {rpcs : List Rpc} {d : Daemon ε}
    (hrpcs : ∀ rpc ∈ rpcs, rpc ≠ .clearVars)
    (h : Machine.perform (serve libc reg) (Daemon.start value) rpcs = .ok d) :
    ∀ r ∈ d.engine.rules, ∀ call ∈ r.calls,
      checkPrototype reg.parseArg d.engine.vars call.1 call.2.1 = (none, d.engine.vars) ∧
      ∀ index letter, declared call.1 index = some letter →
        ∃ arg, getArg reg.parseArg d.engine.vars call.2.1 index = .ok arg ∧ arg.type.letter = letter := by
  have hacc := accounted_run (meets_unreferenced hrpcs _) h
  intro r hr call hcall
  have hfits := hacc.typed r hr call hcall
  exact ⟨hfits.checkPrototype,fun index letter hletter => hfits.getArg hletter⟩

end Runs

/-- The rule again, and another value for its variable, of its type and of another one. -/
def raisedRpcs : List Rpc := lowRpcs ++ [.addVar "low" "20", .addVar "low" "\"x\""]

/-- The argument of the rule is still an integer. -/
theorem rules_well_typed_low : ∃ d r call, zeroRun raisedRpcs = .ok d ∧ r ∈ d.engine.rules ∧
    call ∈ r.calls ∧ declared call.1 0 = some 'i' ∧
    ∃ arg, getArg zeroRegistry.parseArg d.engine.vars call.2.1 0 = .ok arg ∧ arg.type.letter = 'i' := by
  have hrun : (zeroRun raisedRpcs).toOption.map (fun d => d.engine.rules.any fun r => r.calls.any fun call =>
      declared call.1 0 = some 'i') = some true := by decide +kernel
  obtain ⟨d,hd,hany⟩ := map_toOption_eq_some.mp hrun
  obtain ⟨r,hr,hcalls⟩ := List.any_eq_true.mp hany
  obtain ⟨call,hcall,hletter⟩ := List.any_eq_true.mp hcalls
  have hdecl : declared call.1 0 = some 'i' := of_decide_eq_true hletter
  have htyped := rules_well_typed (by simp [raisedRpcs, lowRpcs]) hd r hr call hcall
  exact ⟨d,r,call,hd,hr,hcall,hdecl,htyped.2 0 'i' hdecl⟩

end Xctools.Xcpmd
