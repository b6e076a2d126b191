import Xctools.Xcpmd.Accumulators

/-! Variable strings. Every entry is given to `add_var`, unless its name is in the map, and the parse goes on whatever
becomes of it; only the last entry decides what `parse` returns, and only what `add_var` says is in the message. -/
namespace Xctools.Xcpmd
open Machine

section Entries
variable (libc : Libc) (parseArg : String → Option Arg)

/-- The value an entry is given to `add_var` with, if its name is not in the map. -/
def WrittenItem.Offers (w : WrittenItem) (arg : FnArg) : Prop :=
  w.args.filterMap (WrittenArg.read libc) = [arg] ∧ (∀ name, arg ≠ .var name)

/-- What `add_var` makes of an entry: whether it is stored, the variables, and what is said about it. -/
def Settings.adds (s : Settings) (w : WrittenItem) (arg : FnArg) : Bool × VarStore × String :=
  addVar libc parseArg s.vars (String.ofList w.name) (convFnArg arg)

/-- The name of an entry is in the map. -/
def Settings.Repeats (s : Settings) (w : WrittenItem) : Prop := (getVarFromMap s.varMap (String.ofList w.name)).isSome = true

/-- An entry is stored by `add_var` with its value, which is the only one that is written. -/
def Settings.Stores (s : Settings) (w : WrittenItem) : Prop :=
  ∃ arg, w.Offers libc arg ∧ w.args.map (WrittenArg.value libc) = [some arg] ∧ ¬ s.Repeats w ∧
    (s.adds libc parseArg w arg).1 = true

/-- An entry is a repetition, or `add_var` refuses it. -/
def Settings.Refuses (s : Settings) (w : WrittenItem) : Prop :=
  ∃ arg, w.Offers libc arg ∧ (s.Repeats w ∨ (s.adds libc parseArg w arg).1 = false)

/-- Something is said when an entry is given to `add_var`. -/
def Settings.Tells (s : Settings) (w : WrittenItem) : Prop :=
  ∃ arg, w.Offers libc arg ∧ ¬ s.Repeats w ∧ (s.adds libc parseArg w arg).2.2 ≠ ""

/-- An entry of a variable string, with the settings it finds. -/
structure Finds (s₀ : Settings) (items before : List WrittenItem) (w : WrittenItem) (after : List WrittenItem)
    (s : Settings) : Prop where
  split : items = before ++ w :: after
  settings : s₀.after libc parseArg .varMap before = some s

/-- Every entry is stored. -/
def AllStored (s₀ : Settings) (items : List WrittenItem) : Prop :=
  ∀ before w after, items = before ++ w :: after → ∃ s, s₀.after libc parseArg .varMap before = some s ∧ s.Stores libc parseArg w

/-! What becomes of the entries can be told from the string, the map and the variables before it. -/

/-- The types of value that an entry can have. -/
def FnArg.Storable : FnArg → Prop
  | .var _ | .undetermined => False
  | _ => True

/-- All values in a map are of types that entries have. -/
def StorableMap (varMap : VarMap) : Prop := ∀ e ∈ varMap, e.2.Storable

/-- There is a variable of the name of an entry, of another type than its value. -/
def WrittenItem.Clashes (vars : VarStore) (w : WrittenItem) : Prop :=
  ∃ arg var, w.Offers libc arg ∧ (lookupVar parseArg vars (String.ofList w.name)).1 = some var ∧
    var.value.type ≠ (convFnArg arg).type

/-- There is a variable of the name of an entry, without its value, or with other bytes behind it. -/
def WrittenItem.Differs (vars : VarStore) (w : WrittenItem) : Prop :=
  ∃ arg var, w.Offers libc arg ∧ (lookupVar parseArg vars (String.ofList w.name)).1 = some var ∧
    sameValue libc var (convFnArg arg) = false

/-- The name of an entry is in the map, or an entry before it has the name and is of a type that can be stored. -/
def WrittenItem.ComesAgain (varMap : VarMap) (vars : VarStore) (before : List WrittenItem) (w : WrittenItem) : Prop :=
  (getVarFromMap varMap (String.ofList w.name)).isSome = true ∨
    ∃ v ∈ before, v.name = w.name ∧ ¬ v.Clashes libc parseArg vars

/-- Every entry has one value, which is read as it is written, and its name is new and of its type. -/
def AllNew (varMap : VarMap) (vars : VarStore) (items : List WrittenItem) : Prop :=
  ∀ before w after, items = before ++ w :: after →
    (∃ arg, w.Offers libc arg ∧ w.args.map (WrittenArg.value libc) = [some arg]) ∧
      ¬ w.ComesAgain libc parseArg varMap vars before ∧ ¬ w.Clashes libc parseArg vars

/-- The last entry comes again or clashes. -/
def LastRefused (varMap : VarMap) (vars : VarStore) (items : List WrittenItem) : Prop :=
  ∃ before w, items = before ++ [w] ∧
    (w.ComesAgain libc parseArg varMap vars before ∨ w.Clashes libc parseArg vars)

/-- An entry whose name is new differs from its variable. -/
def SomeTold (varMap : VarMap) (vars : VarStore) (items : List WrittenItem) : Prop :=
  ∃ before w after, items = before ++ w :: after ∧ ¬ w.ComesAgain libc parseArg varMap vars before ∧
    w.Differs libc parseArg vars

/-- The last entry is refused, and something was said about one of them. -/
def ToldOff (varMap : VarMap) (vars : VarStore) (items : List WrittenItem) : Prop :=
  LastRefused libc parseArg varMap vars items ∧ SomeTold libc parseArg varMap vars items

variable {libc parseArg} {s s' s₀ : Settings} {w w' : WrittenItem} {arg arg' : FnArg} {items before after : List WrittenItem}

lemma WrittenItem.Offers.unique (h : w.Offers libc arg) (h' : w.Offers libc arg') : arg = arg' :=
  List.singleton_injective (h.1.symm.trans h'.1)

/-- The parse goes on behind an entry that offers a value. -/
lemma afterItem_varMap_iff : s.afterItem libc parseArg .varMap w = some s' ↔
    ∃ arg, w.Offers libc arg ∧ arg ≠ .undetermined ∧ s' = s.enter libc parseArg (String.ofList w.name) arg := by
  rw [Settings.afterItem, if_pos rfl]
  constructor
  · intro h
    split at h
    · cases h
    · cases h
    · rename_i arg hvar hundet hone
      exact ⟨arg,⟨hone,hvar⟩,hundet,(Option.some.inj h).symm⟩
    · cases h
  · rintro ⟨arg,⟨hone,hvar⟩,hundet,rfl⟩
    rw [hone]
    split
    · rename_i heq
      exact absurd (List.singleton_injective heq) (hvar _)
    · rename_i heq
      exact absurd (List.singleton_injective heq) hundet
    · rename_i heq
      rw [List.singleton_injective heq]
    · rename_i hnone
      exact absurd rfl (hnone arg)

/-- Nothing that is read is undetermined. -/
lemma WrittenItem.Offers.ne_undetermined (h : w.Offers libc arg) : arg ≠ .undetermined := by
  rintro rfl
  have hmem : FnArg.undetermined ∈ w.args.filterMap (WrittenArg.read libc) := by rw [h.1]; exact List.mem_singleton.mpr rfl
  obtain ⟨a,-,ha⟩ := List.mem_filterMap.mp hmem
  rw [WrittenArg.read] at ha
  split_ifs at ha
  cases a <;> cases ha

lemma afterItem_of_offers (h : w.Offers libc arg) :
    s.afterItem libc parseArg .varMap w = some (s.enter libc parseArg (String.ofList w.name) arg) :=
  afterItem_varMap_iff.mpr ⟨arg,h,h.ne_undetermined,rfl⟩

lemma enter_of_repeats (h : s.Repeats w) :
    s.enter libc parseArg (String.ofList w.name) arg = { s with errorCode := 1 } := if_pos h

lemma enter_of_not_repeats (h : ¬ s.Repeats w) : s.enter libc parseArg (String.ofList w.name) arg =
    { varMap := if (s.adds libc parseArg w arg).1 then s.varMap ++ [(String.ofList w.name, arg)] else s.varMap
      vars := (s.adds libc parseArg w arg).2.1
      errorCode := if (s.adds libc parseArg w arg).1 then noParseError else 1
      message := appendMessage s.message (s.adds libc parseArg w arg).2.2 } := if_neg h

/-- An entry leaves an error exactly if it is refused. -/
lemma enter_errorCode_iff (h : w.Offers libc arg) :
    (s.enter libc parseArg (String.ofList w.name) arg).errorCode ≠ noParseError ↔ s.Refuses libc parseArg w := by
  have hone : (1 : ℕ) ≠ noParseError := by decide
  have hiff : s.Refuses libc parseArg w ↔ s.Repeats w ∨ (s.adds libc parseArg w arg).1 = false := by
    refine ⟨fun ⟨arg',h',hor⟩ => ?_,fun hor => ⟨arg,h,hor⟩⟩
    rwa [h.unique h']
  rw [hiff]
  by_cases hrep : s.Repeats w
  · rw [enter_of_repeats hrep]
    simp [hrep, hone]
  · rw [enter_of_not_repeats hrep]
    cases hadd : (s.adds libc parseArg w arg).1 <;> simp [hrep, hone]

/-- Something is said about one of the entries so far. -/
def Settings.Told (s : Settings) : Prop := ∃ m, s.message = some m ∧ m ≠ ""

/-- There is a message behind an entry if there was one before it, or something is said about the entry. -/
lemma enter_told_iff (h : w.Offers libc arg) :
    (s.enter libc parseArg (String.ofList w.name) arg).Told ↔ s.Told ∨ s.Tells libc parseArg w := by
  have hiff : s.Tells libc parseArg w ↔ ¬ s.Repeats w ∧ (s.adds libc parseArg w arg).2.2 ≠ "" := by
    refine ⟨fun ⟨arg',h',htell⟩ => ?_,fun htell => ⟨arg,h,htell⟩⟩
    rwa [h.unique h']
  rw [hiff]
  unfold Settings.Told
  by_cases hrep : s.Repeats w
  · rw [enter_of_repeats hrep]
    simp [hrep]
  · rw [enter_of_not_repeats hrep, appendMessage]
    by_cases htext : (s.adds libc parseArg w arg).2.2 = ""
    · simp [htext]
    · simp [htext, hrep]

/-- Where an entry of a longer string stands. -/
lemma split_concat_iff : items ++ [w'] = before ++ w :: after ↔
    (∃ after', after = after' ++ [w'] ∧ items = before ++ w :: after') ∨ after = [] ∧ before = items ∧ w = w' := by
  constructor
  · intro h
    induction after using List.reverseRecOn with
    | nil =>
      obtain ⟨rfl,hw⟩ := List.append_inj' h rfl
      exact .inr ⟨rfl,rfl,(List.singleton_injective hw).symm⟩
    | append_singleton after x _ =>
      rw [← List.cons_append, ← List.append_assoc] at h
      obtain ⟨rfl,hw⟩ := List.append_inj' h rfl
      exact .inl ⟨after,by rw [List.singleton_injective hw],rfl⟩
  · rintro (⟨after',rfl,rfl⟩ | ⟨rfl,rfl,rfl⟩)
    · simp
    · rfl

lemma allStored_concat_iff : AllStored libc parseArg s₀ (items ++ [w]) ↔ AllStored libc parseArg s₀ items ∧
    ∃ s, s₀.after libc parseArg .varMap items = some s ∧ s.Stores libc parseArg w := by
  constructor
  · intro h
    refine ⟨fun before w' after heq => ?_,h items w [] rfl⟩
    exact h before w' (after ++ [w]) (split_concat_iff.mpr (.inl ⟨after,rfl,heq⟩))
  · rintro ⟨hall,hlast⟩ before w' after heq
    rcases split_concat_iff.mp heq with ⟨after',-,hitems⟩ | ⟨-,rfl,rfl⟩
    · exact hall before w' after' hitems
    · exact hlast

/-- The parse goes on behind entries that are stored. -/
lemma AllStored.isSome_after (h : AllStored libc parseArg s₀ items) :
    (s₀.after libc parseArg .varMap items).isSome = true := by
  induction items using List.reverseRecOn with
  | nil => rfl
  | append_singleton items w _ =>
    obtain ⟨-,s,hs,arg,hoffers,-⟩ := allStored_concat_iff.mp h
    rw [Settings.after_append, hs, Option.bind_some, afterItem_of_offers hoffers]
    rfl

/-- What the entries come to, the last of them apart. -/
lemma after_concat_iff : s₀.after libc parseArg .varMap (items ++ [w]) = some s' ↔
    ∃ s arg, s₀.after libc parseArg .varMap items = some s ∧ w.Offers libc arg ∧
      s' = s.enter libc parseArg (String.ofList w.name) arg := by
  rw [Settings.after_append, Option.bind_eq_some_iff]
  constructor
  · rintro ⟨s,hs,hw⟩
    obtain ⟨arg,hoffers,-,rfl⟩ := afterItem_varMap_iff.mp hw
    exact ⟨s,arg,hs,hoffers,rfl⟩
  · rintro ⟨s,arg,hs,hoffers,rfl⟩
    exact ⟨s,hs,afterItem_of_offers hoffers⟩

/-- The last entry decides about the error code. -/
lemma after_errorCode_iff (h : s₀.after libc parseArg .varMap items = some s) (h₀ : s₀.errorCode = noParseError) :
    s.errorCode ≠ noParseError ↔ ∃ before w s, Finds libc parseArg s₀ items before w [] s ∧ s.Refuses libc parseArg w := by
  induction items using List.reverseRecOn with
  | nil =>
    obtain rfl := Option.some.inj h
    refine iff_of_false (fun hne => hne h₀) ?_
    rintro ⟨before,w,s,hfinds,-⟩
    simpa using hfinds.split
  | append_singleton items w _ =>
    obtain ⟨s₁,arg,hs₁,hoffers,rfl⟩ := after_concat_iff.mp h
    rw [enter_errorCode_iff hoffers]
    constructor
    · exact fun hrefuses => ⟨items,w,s₁,⟨rfl,hs₁⟩,hrefuses⟩
    · rintro ⟨before,w',s',⟨hsplit,hs'⟩,hrefuses⟩
      obtain ⟨rfl,hw⟩ := List.append_inj' hsplit rfl
      obtain rfl := Option.some.inj (hs₁.symm.trans hs')
      rwa [List.singleton_injective hw]

/-- The message holds what is said about the entries. -/
lemma after_told_iff (h : s₀.after libc parseArg .varMap items = some s) (h₀ : s₀.message = none) :
    s.Told ↔ ∃ before w after s, Finds libc parseArg s₀ items before w after s ∧ s.Tells libc parseArg w := by
  -- induction on the entries, from the last
  induction items using List.reverseRecOn generalizing s with
  | nil =>
    obtain rfl := Option.some.inj h
    refine iff_of_false (by simp [Settings.Told, h₀]) ?_
    rintro ⟨before,w,after,s,hfinds,-⟩
    simpa using hfinds.split
  | append_singleton items w ih =>
    obtain ⟨s₁,arg,hs₁,hoffers,rfl⟩ := after_concat_iff.mp h
    rw [enter_told_iff hoffers, ih hs₁]
    constructor
    · rintro (⟨before,w',after,s,⟨hsplit,hs⟩,htells⟩ | htells)
      · exact ⟨before,w',after ++ [w],s,⟨split_concat_iff.mpr (.inl ⟨after,rfl,hsplit⟩),hs⟩,htells⟩
      · exact ⟨items,w,[],s₁,⟨rfl,hs₁⟩,htells⟩
    · rintro ⟨before,w',after,s,⟨hsplit,hs⟩,htells⟩
      rcases split_concat_iff.mp hsplit with ⟨after',-,hitems⟩ | ⟨-,rfl,rfl⟩
      · exact .inl ⟨before,w',after',s,⟨hitems,hs⟩,htells⟩
      · obtain rfl := Option.some.inj (hs₁.symm.trans hs)
        exact .inr htells

/-- A stored entry is not refused. -/
lemma Settings.Stores.not_refuses (h : s.Stores libc parseArg w) : ¬ s.Refuses libc parseArg w := by
  obtain ⟨arg,hoffers,-,hrep,hadd⟩ := h
  rintro ⟨arg',hoffers',hrep' | hadd'⟩
  · exact hrep hrep'
  · rw [hoffers.unique hoffers', hadd'] at hadd
    cases hadd

/-- Entries that are stored leave no error. -/
lemma AllStored.errorCode (h : AllStored libc parseArg s₀ items) (h₀ : s₀.errorCode = noParseError)
    (hs : s₀.after libc parseArg .varMap items = some s) : s.errorCode = noParseError := by
  by_contra hne
  obtain ⟨before,w,s',⟨rfl,hs'⟩,hrefuses⟩ := (after_errorCode_iff hs h₀).mp hne
  obtain ⟨-,s'',hs'',hstores⟩ := allStored_concat_iff.mp h
  obtain rfl := Option.some.inj (hs'.symm.trans hs'')
  exact hstores.not_refuses hrefuses

lemma adds_refuses_iff (hoffers : w.Offers libc arg) :
    (s.adds libc parseArg w arg).1 = false ↔ w.Clashes libc parseArg s.vars := by
  refine addVar_refuses_iff.trans ⟨fun ⟨var,hvar,htype⟩ => ⟨arg,var,hoffers,hvar,htype⟩,fun ⟨arg',var,hoffers',hvar,htype⟩ => ?_⟩
  obtain rfl := hoffers.unique hoffers'
  exact ⟨var,hvar,htype⟩

lemma adds_tells_iff (hoffers : w.Offers libc arg) :
    (s.adds libc parseArg w arg).2.2 ≠ "" ↔ w.Differs libc parseArg s.vars := by
  refine addVar_tells_iff.trans ⟨fun ⟨var,hvar,hsame⟩ => ⟨arg,var,hoffers,hvar,hsame⟩,fun ⟨arg',var,hoffers',hvar,hsame⟩ => ?_⟩
  obtain rfl := hoffers.unique hoffers'
  exact ⟨var,hvar,hsame⟩

lemma WrittenItem.clashes_congr {vars vars' : VarStore} (h : (lookupVar parseArg vars' (String.ofList w.name)).1 =
    (lookupVar parseArg vars (String.ofList w.name)).1) : w.Clashes libc parseArg vars' ↔ w.Clashes libc parseArg vars := by
  unfold WrittenItem.Clashes
  rw [h]

lemma WrittenItem.differs_congr {vars vars' : VarStore} (h : (lookupVar parseArg vars' (String.ofList w.name)).1 =
    (lookupVar parseArg vars (String.ofList w.name)).1) : w.Differs libc parseArg vars' ↔ w.Differs libc parseArg vars := by
  unfold WrittenItem.Differs
  rw [h]

/-- What is offered can be stored. -/
lemma WrittenItem.Offers.storable (h : w.Offers libc arg) : arg.Storable := by
  cases arg with
  | var name => exact h.2 name rfl
  | undetermined => exact h.ne_undetermined rfl
  | int i => trivial
  | bool b => trivial
  | float f => trivial
  | str t => trivial

/-- Values that can be stored are found under their names. -/
lemma isSome_getVarFromMap_iff {varMap : VarMap} {name : String} (hmap : StorableMap varMap) :
    (getVarFromMap varMap name).isSome = true ↔ name ∈ varMap.map Prod.fst := by
  unfold getVarFromMap
  cases hfind : varMap.find? fun entry => entry.1 = name with
  | none =>
    have hnone := List.find?_eq_none.mp hfind
    refine iff_of_false (by simp) fun hmem => ?_
    obtain ⟨e,he,hname⟩ := List.mem_map.mp hmem
    exact hnone e he (by simpa using hname)
  | some e =>
    have hmem := List.mem_of_find?_eq_some hfind
    have hname : e.1 = name := by simpa using List.find?_some hfind
    refine iff_of_true ?_ (List.mem_map.mpr ⟨e,hmem,hname⟩)
    have hstorable := hmap e hmem
    rcases e with ⟨n,arg⟩
    cases arg <;> first | rfl | exact absurd hstorable id

/-- What the settings behind some entries are to the next. -/
structure Behind (libc : Libc) (parseArg : String → Option Arg) (varMap : VarMap) (vars : VarStore)
    (before : List WrittenItem) (s : Settings) : Prop where
  storable : StorableMap s.varMap
  repeats : ∀ w, s.Repeats w ↔ w.ComesAgain libc parseArg varMap vars before
  found : ∀ name, (∀ v ∈ before, v.name = name → v.Clashes libc parseArg vars) →
    (lookupVar parseArg s.vars (String.ofList name)).1 = (lookupVar parseArg vars (String.ofList name)).1

variable {varMap : VarMap} {vars : VarStore}

/-- An entry whose name is new finds the variable of its name as it was. -/
lemma Behind.found_of_new (h : Behind libc parseArg varMap vars before s)
    (hnew : ¬ w.ComesAgain libc parseArg varMap vars before) :
    (lookupVar parseArg s.vars (String.ofList w.name)).1 = (lookupVar parseArg vars (String.ofList w.name)).1 := by
  refine h.found w.name fun v hv hname => ?_
  by_contra hclash
  exact hnew (.inr ⟨v,hv,hname,hclash⟩)

lemma comesAgain_concat_iff : w'.ComesAgain libc parseArg varMap vars (before ++ [w]) ↔
    w'.ComesAgain libc parseArg varMap vars before ∨ w.name = w'.name ∧ ¬ w.Clashes libc parseArg vars := by
  simp only [WrittenItem.ComesAgain, List.mem_append, List.mem_singleton, or_and_right, exists_or, exists_eq_left, or_assoc]

lemma Behind.enter (h : Behind libc parseArg varMap vars before s) (hoffers : w.Offers libc arg) :
    Behind libc parseArg varMap vars (before ++ [w]) (s.enter libc parseArg (String.ofList w.name) arg) := by
  have hrestrict : ∀ name, (∀ v ∈ before ++ [w], v.name = name → v.Clashes libc parseArg vars) →
      (lookupVar parseArg s.vars (String.ofList name)).1 = (lookupVar parseArg vars (String.ofList name)).1 :=
    fun name hall => h.found name fun v hv => hall v (List.mem_append_left _ hv)
  by_cases hrep : s.Repeats w
  · -- what has the name of a repetition is one
    rw [enter_of_repeats hrep]
    refine ⟨h.storable,fun w' => ?_,hrestrict⟩
    rw [comesAgain_concat_iff, ← h.repeats w']
    refine ⟨.inl,fun hor => hor.elim id fun ⟨hname,_⟩ => ?_⟩
    unfold Settings.Repeats at hrep ⊢
    rwa [← hname]
  have hnew : ¬ w.ComesAgain libc parseArg varMap vars before := fun hagain => hrep ((h.repeats w).mpr hagain)
  have hclash : w.Clashes libc parseArg s.vars ↔ w.Clashes libc parseArg vars :=
    WrittenItem.clashes_congr (h.found_of_new hnew)
  have hrefused := @adds_refuses_iff libc parseArg s w arg hoffers
  rw [enter_of_not_repeats hrep]
  cases hadd : (s.adds libc parseArg w arg).1 with
  | false =>
    have hw := hclash.mp (hrefused.mp hadd)
    refine ⟨h.storable,fun w' => ?_,fun name hall => ?_⟩
    · rw [comesAgain_concat_iff, ← h.repeats w']
      exact ⟨.inl,fun hor => hor.elim id fun hnot => absurd hw hnot.2⟩
    · exact (lookupVar_addVar_of_refused hadd _).trans (hrestrict name hall)
  | true =>
    have hw : ¬ w.Clashes libc parseArg vars := fun hw => by
      rw [hrefused.mpr (hclash.mpr hw)] at hadd
      cases hadd
    have hstorable : StorableMap (s.varMap ++ [(String.ofList w.name,arg)]) :=
      List.forall_mem_append.mpr ⟨h.storable,List.forall_mem_singleton.mpr hoffers.storable⟩
    refine ⟨hstorable,fun w' => ?_,fun name hall => ?_⟩
    · rw [comesAgain_concat_iff, ← h.repeats w']
      unfold Settings.Repeats
      rw [if_pos rfl, isSome_getVarFromMap_iff hstorable, isSome_getVarFromMap_iff h.storable]
      simp [hw, eq_comm, String.ofList_inj]
    · have hne : name ≠ w.name := fun heq => hw (hall w (by simp) heq.symm)
      refine (lookupVar_addVar_of_ne fun heq => hne (String.ofList_inj.mp heq)).trans (hrestrict name hall)

variable (parseArg vars) in
/-- Entries that each offer a value are passed, and the settings behind them are known. -/
lemma behind_of_offers (hmap : StorableMap varMap) (h : ∀ w ∈ before, ∃ arg, w.Offers libc arg) :
    ∃ s, Settings.after libc parseArg .varMap { varMap, vars } before = some s ∧ Behind libc parseArg varMap vars before s := by
  induction before using List.reverseRecOn with
  | nil => exact ⟨_,rfl,hmap,fun w => by simp [Settings.Repeats, WrittenItem.ComesAgain],fun name _ => rfl⟩
  | append_singleton before w ih =>
    obtain ⟨hbefore,hw⟩ := List.forall_mem_append.mp h
    obtain ⟨s,hs,hbehind⟩ := ih hbefore
    obtain ⟨arg,hoffers⟩ := hw w (by simp)
    exact ⟨_,after_concat_iff.mpr ⟨s,arg,hs,hoffers,rfl⟩,hbehind.enter hoffers⟩

/-- The parse goes on behind entries exactly if each offers a value. -/
lemma isSome_after_iff : (s₀.after libc parseArg .varMap items).isSome = true ↔ ∀ w ∈ items, ∃ arg, w.Offers libc arg := by
  induction items using List.reverseRecOn with
  | nil => simp [Settings.after]
  | append_singleton items w ih =>
    rw [List.forall_mem_append, ← ih, List.forall_mem_singleton, Option.isSome_iff_exists, Option.isSome_iff_exists]
    constructor
    · rintro ⟨s',hs'⟩
      obtain ⟨s,arg,hs,hoffers,-⟩ := after_concat_iff.mp hs'
      exact ⟨⟨s,hs⟩,arg,hoffers⟩
    · rintro ⟨⟨s,hs⟩,arg,hoffers⟩
      exact ⟨_,after_concat_iff.mpr ⟨s,arg,hs,hoffers,rfl⟩⟩

/-- An entry is refused if it comes again or clashes. -/
lemma Behind.refuses_iff (h : Behind libc parseArg varMap vars before s) (hoffers : w.Offers libc arg) :
    s.Refuses libc parseArg w ↔ w.ComesAgain libc parseArg varMap vars before ∨ w.Clashes libc parseArg vars := by
  have hiff : s.Refuses libc parseArg w ↔ s.Repeats w ∨ w.Clashes libc parseArg s.vars := by
    rw [← adds_refuses_iff hoffers]
    refine ⟨fun ⟨arg',hoffers',hor⟩ => ?_,fun hor => ⟨arg,hoffers,hor⟩⟩
    rwa [hoffers.unique hoffers']
  rw [hiff, h.repeats w]
  by_cases hnew : w.ComesAgain libc parseArg varMap vars before
  · simp only [hnew, true_or]
  · rw [WrittenItem.clashes_congr (h.found_of_new hnew)]

/-- Something is said about an entry that is new and differs. -/
lemma Behind.tells_iff (h : Behind libc parseArg varMap vars before s) (hoffers : w.Offers libc arg) :
    s.Tells libc parseArg w ↔ ¬ w.ComesAgain libc parseArg varMap vars before ∧ w.Differs libc parseArg vars := by
  have hiff : s.Tells libc parseArg w ↔ ¬ s.Repeats w ∧ w.Differs libc parseArg s.vars := by
    rw [← adds_tells_iff hoffers]
    refine ⟨fun ⟨arg',hoffers',htell⟩ => ?_,fun htell => ⟨arg,hoffers,htell⟩⟩
    rwa [hoffers.unique hoffers']
  rw [hiff, h.repeats w]
  exact and_congr_right fun hnew => WrittenItem.differs_congr (h.found_of_new hnew)

variable (parseArg vars) in
/-- Every entry of a string is found with settings that are known. -/
lemma finds_of_offers (hmap : StorableMap varMap) (hoffers : ∀ w ∈ items, ∃ arg, w.Offers libc arg)
    (hsplit : items = before ++ w :: after) : ∃ s arg, w.Offers libc arg ∧
      Finds libc parseArg { varMap, vars } items before w after s ∧ Behind libc parseArg varMap vars before s := by
  subst hsplit
  obtain ⟨s,hs,hbehind⟩ := behind_of_offers parseArg vars hmap fun v hv =>
    hoffers v (List.mem_append_left _ hv)
  obtain ⟨arg,hw⟩ := hoffers w (by simp)
  exact ⟨s,arg,hw,⟨rfl,hs⟩,hbehind⟩

/-- What becomes of the entries, told from what there is before the string. -/
lemma allStored_iff (hmap : StorableMap varMap) (hoffers : ∀ w ∈ items, ∃ arg, w.Offers libc arg) :
    AllStored libc parseArg { varMap, vars } items ↔ AllNew libc parseArg varMap vars items := by
  refine forall_congr' fun before => forall_congr' fun w => forall_congr' fun after => forall_congr' fun heq => ?_
  obtain ⟨s,arg,hw,⟨-,hs⟩,hbehind⟩ := finds_of_offers parseArg vars hmap hoffers heq
  have hrefuses := hbehind.refuses_iff hw
  constructor
  · rintro ⟨s',hs',hstores⟩
    obtain rfl := Option.some.inj (hs.symm.trans hs')
    have hnot := hstores.not_refuses
    rw [hrefuses, not_or] at hnot
    obtain ⟨arg',hw',hone,-⟩ := hstores
    exact ⟨⟨arg',hw',hone⟩,hnot⟩
  · rintro ⟨⟨arg',hw',hone⟩,hnew,hclash⟩
    refine ⟨s,hs,arg',hw',hone,fun hrep => hnew ((hbehind.repeats w).mp hrep),?_⟩
    rw [← WrittenItem.clashes_congr (hbehind.found_of_new hnew), ← adds_refuses_iff hw', Bool.not_eq_false] at hclash
    exact hclash

/-- What an entry is refused for can be told from what there is before the string. -/
lemma lastRefused_iff (hmap : StorableMap varMap) (hoffers : ∀ w ∈ items, ∃ arg, w.Offers libc arg) :
    (∃ before w s, Finds libc parseArg { varMap, vars } items before w [] s ∧ s.Refuses libc parseArg w) ↔
      LastRefused libc parseArg varMap vars items := by
  constructor
  · rintro ⟨before,w,s,hs,hrefuses⟩
    obtain ⟨s',arg,hw,hs',hbehind⟩ := finds_of_offers parseArg vars hmap hoffers hs.split
    obtain rfl := Option.some.inj (hs.settings.symm.trans hs'.settings)
    exact ⟨before,w,hs.split,(hbehind.refuses_iff hw).mp hrefuses⟩
  · rintro ⟨before,w,heq,hor⟩
    obtain ⟨s,arg,hw,hs,hbehind⟩ := finds_of_offers parseArg vars hmap hoffers heq
    exact ⟨before,w,s,hs,(hbehind.refuses_iff hw).mpr hor⟩

/-- So can what is said about it. -/
lemma someTold_iff (hmap : StorableMap varMap) (hoffers : ∀ w ∈ items, ∃ arg, w.Offers libc arg) :
    (∃ before w after s, Finds libc parseArg { varMap, vars } items before w after s ∧ s.Tells libc parseArg w) ↔
      SomeTold libc parseArg varMap vars items := by
  constructor
  · rintro ⟨before,w,after,s,hs,htells⟩
    obtain ⟨s',arg,hw,hs',hbehind⟩ := finds_of_offers parseArg vars hmap hoffers hs.split
    obtain rfl := Option.some.inj (hs.settings.symm.trans hs'.settings)
    exact ⟨before,w,after,hs.split,(hbehind.tells_iff hw).mp htells⟩
  · rintro ⟨before,w,after,heq,hnew⟩
    obtain ⟨s,arg,hw,hs,hbehind⟩ := finds_of_offers parseArg vars hmap hoffers heq
    exact ⟨before,w,after,s,hs,(hbehind.tells_iff hw).mpr hnew⟩

variable {d d' : ParseData} {a : Option ParseAction} {c : Char}

lemma StorableMap.storeFn (h : StorableMap d.varMap) : StorableMap (storeFn libc parseArg d).varMap := by
  unfold Xcpmd.storeFn
  dsimp only
  split
  · exact h
  · exact h
  · exact h
  · exact h
  · split
    · exact h
    · exact h
    · exact h
    · rename_i arg hvar _ _
      have harg : arg.Storable := by cases arg <;> first | trivial | exact (hvar _ rfl).elim
      unfold addToVarMapAsArg ParseData.fnDone
      dsimp only
      split_ifs
      · exact h
      · split
        · exact h
        · exact List.forall_mem_append.mpr ⟨h,List.forall_mem_singleton.mpr harg⟩
    · exact h
  · exact h

lemma StorableMap.acceptFn (h : StorableMap d.varMap) (hd : acceptFn libc parseArg d = .ok d') :
    StorableMap d'.varMap := by
  obtain ⟨d₁,hd₁,-,hd'⟩ := acceptFn_cases hd
  have h₁ : StorableMap d₁.varMap := by
    rcases (acceptArg_cases hd₁).2 with ⟨-,rfl⟩ | ⟨-,rfl⟩ | ⟨-,code,message,-,rfl⟩ <;> exact h
  rcases hd' with ⟨-,rfl⟩ | ⟨-,rfl⟩
  · exact h₁
  · exact h₁.storeFn

lemma StorableMap.perform (h : StorableMap d.varMap) (hd : perform libc parseArg a d c = .ok d') :
    StorableMap d'.varMap := by
  unfold Xcpmd.perform at hd
  split at hd
  case h_12 => exact h.acceptFn hd
  case h_13 =>
    obtain ⟨d₁,hd₁,hd'⟩ := acceptFns_cases hd
    have h₁ := h.acceptFn hd₁
    rcases hd' with ⟨-,rfl⟩ | ⟨-,rfl⟩ | ⟨-,rfl⟩ | ⟨-,rfl⟩ | ⟨-,message,rfl⟩ <;> exact h₁
  case h_11 => rcases (acceptArg_cases hd).2 with ⟨-,rfl⟩ | ⟨-,rfl⟩ | ⟨-,code,message,-,rfl⟩ <;> exact h
  case h_2 =>
    obtain ⟨-,rfl⟩ := accumName_eq_ok.mp hd
    exact h
  all_goals first
    | (obtain rfl := Except.ok.inj hd; exact h)
    | (obtain ⟨-,rfl⟩ := accumArg_eq_ok.mp hd; exact h)

/-- The map that a parse leaves has values that can be stored if it had them before. -/
lemma StorableMap.parse {t : Option String} (h : StorableMap d.varMap) (hd : parse libc parseArg d t = .ok d') :
    StorableMap d'.varMap := by
  obtain ⟨hrounds,-⟩ := rounds_of_loop hd
  refine hrounds.invariant (P := fun d => StorableMap d.varMap) (fun a b ha _ hb => ?_) h
  rcases parseRound_cases hb with ⟨x,q,d₁,-,hp,rfl⟩ | ⟨-,rfl⟩
  · have h₁ : StorableMap d₁.varMap := StorableMap.perform (d := { a with rest := a.rest.tail }) ha hp
    unfold follow
    split_ifs <;> exact h₁
  · exact ha

end Entries

section Answers
variable (libc : Libc) (parseArg : String → Option Arg)

/-- The answer to a variable string: it is accepted exactly if every entry was stored, and there is something to read
for `extract_parse_error` if it is not. -/
structure AnswersVars (s₀ : Settings) (text : List Char) (d : ParseData) : Prop where
  accepted : d.returned = some true ↔ ∃ items, Spelled items text ∧ AllStored libc parseArg s₀ items
  refused : d.returned ≠ some true → d.returned = some false ∧ Told d ∧
    Returns (extractParseError d.errorCode ruleCodeNotSet d.message)

variable {libc parseArg}

lemma Told.extractParseError {d : ParseData} (h : Told d) (code : ℕ) :
    Returns (extractParseError d.errorCode code d.message) := by
  obtain ⟨m,hm,-⟩ := h
  rw [hm]
  unfold Xcpmd.extractParseError
  split_ifs <;> simp

/-- An entry with a digit. -/
def digitItem (name digit : Char) : WrittenItem := ⟨false, [name], [.int [digit]]⟩

lemma Spelled.digitItem {items : List WrittenItem} {text : List Char} {name digit : Char} (h : Spelled items text)
    (hready : Ready text) (hname : isAlphanumeric_ name = true) (hdigit : isDigit digit = true) :
    Spelled (items ++ [Xcpmd.digitItem name digit]) (text ++ [name, '(', digit, ')']) :=
  .item (w := Xcpmd.digitItem name digit) h hready ⟨by simp [Xcpmd.digitItem],by simpa [Xcpmd.digitItem] using hname⟩
    (.last (a := .int [digit]) .nil ⟨digit,[],rfl,by simp [isDigitOrMinus, hdigit],by simp⟩)

/-- A stack on which the bytes behind a value are, or are not, those behind the value of the variable. -/
def stackLibc (same : Bool) : Libc := { zeroLibc with sameBehind := fun _ _ => same }

/-- A variable that has the value already. -/
def oneVars : VarStore := ⟨[⟨"a", .int 1, 0⟩],fun _ => none⟩

lemma again_spelled : Spelled [digitItem 'a' '1', digitItem 'b' '2', digitItem 'b' '3'] (spelling (some "a(1) b(2) b(3)")) :=
  (((Spelled.nil.digitItem (.inl rfl) (by decide) (by decide)).space.digitItem (.inr ⟨_,rfl⟩) (by decide)
    (by decide)).space.digitItem (.inr ⟨_,rfl⟩) (by decide) (by decide))

lemma again_fits (same : Bool) :
    FitsText (stackLibc same) (fun _ => none) .varMap { varMap := [], vars := oneVars } (spelling (some "a(1) b(2) b(3)")) := by
  obtain ⟨d,hd,-⟩ := map_toOption_eq_some.mp
    (show (parseVarPersistent (stackLibc same) (fun _ => none) [] oneVars "a(1) b(2) b(3)").toOption.map
      ParseData.returned = some (some false) by cases same <;> decide +kernel)
  exact returns_parseVars_iff.mp ⟨d,hd⟩

lemma digitItem_offers (same : Bool) (name : Char) :
    (digitItem name '1').Offers (stackLibc same) (.int 1) ∧ (digitItem name '2').Offers (stackLibc same) (.int 2) ∧
      (digitItem name '3').Offers (stackLibc same) (.int 3) :=
  ⟨⟨rfl,by simp⟩,⟨rfl,by simp⟩,⟨rfl,by simp⟩⟩

lemma repeated_spelled : Spelled [digitItem 'a' '1', digitItem 'a' '2', digitItem 'b' '3'] (spelling (some "a(1) a(2) b(3)")) :=
  (((Spelled.nil.digitItem (.inl rfl) (by decide) (by decide)).space.digitItem (.inr ⟨_,rfl⟩) (by decide)
    (by decide)).space.digitItem (.inr ⟨_,rfl⟩) (by decide) (by decide))

end Answers

end Xctools.Xcpmd
