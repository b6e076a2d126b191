import Xctools.Xcpmd.Modules
import Xctools.Xcpmd.Rejection

/-! The prototypes of the four module tables against what `check_prototype` makes of an argument list. The
checker separates the letters with one blank; a prototype that separates them otherwise is never matched. -/
namespace Xctools.Xcpmd

section Letters
variable {types : List ArgType}

/-- The letters of the types of an argument list, where `n` stands for the empty list. -/
def typeLetters (types : List ArgType) : List Char :=
  if types = [] then [ArgType.none.letter] else types.map ArgType.letter

/-- The letters a prototype lists, whatever stands between them. -/
def listedLetters (prototype : String) : List Char := prototype.toList.filter Char.isAlpha

/-- Letters with a blank between any two. -/
def spaced (letters : List Char) : List Char := ((letters.map fun c => [c]).intersperse [' ']).flatten

lemma spaced_cons_cons (c c' : Char) (letters : List Char) :
    spaced (c :: c' :: letters) = c :: ' ' :: spaced (c' :: letters) := rfl

lemma prototypeOf_eq (types : List ArgType) : prototypeOf types = String.ofList (spaced (typeLetters types)) := by
  rw [prototypeOf, typeLetters]
  split_ifs with hnil
  · rfl
  · rw [spaced, List.map_map]
    rfl

lemma filter_spaced {letters : List Char} (h : ∀ c ∈ letters, c.isAlpha = true) :
    (spaced letters).filter Char.isAlpha = letters := by
  induction letters with
  | nil => rfl
  | cons c letters ih =>
    obtain ⟨hc,h⟩ := List.forall_mem_cons.mp h
    cases letters with
    | nil => simp [spaced, hc]
    | cons c' letters =>
      rw [spaced_cons_cons, List.filter_cons_of_pos hc, List.filter_cons_of_neg (by decide), ih h]

lemma isAlpha_typeLetters (types : List ArgType) : ∀ c ∈ typeLetters types, c.isAlpha = true := by
  unfold typeLetters
  split_ifs with hnil
  · rw [List.forall_mem_singleton]
    rfl
  · rw [List.forall_mem_map]
    rintro (_ | _) - <;> rfl

/-- A prototype in the spelling of the checker lists the letters it was made of. -/
lemma listedLetters_prototypeOf (types : List ArgType) : listedLetters (prototypeOf types) = typeLetters types := by
  rw [listedLetters, prototypeOf_eq, String.toList_ofList, filter_spaced (isAlpha_typeLetters types)]

/-- So two such prototypes are the same where their letters are. -/
lemma prototypeOf_eq_iff {types' : List ArgType} :
    prototypeOf types' = prototypeOf types ↔ typeLetters types = listedLetters (prototypeOf types') := by
  rw [listedLetters_prototypeOf]
  constructor
  · intro h
    rw [← listedLetters_prototypeOf, ← h, listedLetters_prototypeOf]
  · intro h
    rw [prototypeOf_eq, prototypeOf_eq, h]

/-- The checker writes letters and blanks. -/
lemma comma_notMem_prototypeOf (types : List ArgType) : ',' ∉ (prototypeOf types).toList := by
  rw [prototypeOf_eq, String.toList_ofList]
  apply Machine.notMem_intercalate (by decide)
  rw [List.forall_mem_map]
  intro c hc hcomma
  obtain rfl := List.mem_singleton.mp hcomma
  cases isAlpha_typeLetters types ',' hc

end Letters

section Acceptance
variable {parseArg : String → Option Arg} {vars : VarStore} {args : List Arg} {prototype : String}

/-- The prototypes of all condition and action types that are registered. -/
def registeredPrototypes (parseArg : String → Option Arg) : List String :=
  (xcpmdRegistry parseArg).conditionTypes.map ConditionType.prototype ++
    (xcpmdRegistry parseArg).actionTypes.map ActionType.prototype

/-- Lists of literals for the prototypes of the tables. -/
def sampleArgs : List (List Arg) := [[], [.int 0], [.str ""], [.str "", .str ""]]

lemma registeredPrototypes_eq (parseArg : String → Option Arg) : registeredPrototypes parseArg =
    List.replicate 11 "n" ++ List.replicate 3 "i, i" ++ List.replicate 4 "i" ++ List.replicate 6 "n" ++
      List.replicate 19 "s" ++ List.replicate 2 "s s" ++ List.replicate 7 "s" ++ List.replicate 2 "s s" ++
      ["n"] ++ List.replicate 4 "s" ++ ["n"] ++ List.replicate 3 "s" := rfl

lemma exists_sample (h : prototype ∈ registeredPrototypes parseArg) (hcomma : ',' ∉ prototype.toList) :
    ∃ args ∈ sampleArgs, prototype = prototypeOf (args.map Arg.type) := by
  have hrows : prototype = "i, i" ∨ prototype = "n" ∨ prototype = "i" ∨ prototype = "s" ∨ prototype = "s s" := by
    rw [registeredPrototypes_eq] at h
    simp only [List.mem_append, List.mem_replicate, List.mem_singleton] at h
    tauto
  rcases hrows with rfl | rfl | rfl | rfl | rfl
  · exact absurd (by decide) hcomma
  · exact ⟨[],by simp [sampleArgs],rfl⟩
  · exact ⟨[.int 0],by simp [sampleArgs],rfl⟩
  · exact ⟨[.str ""],by simp [sampleArgs],rfl⟩
  · exact ⟨[.str "",.str ""],by simp [sampleArgs],rfl⟩

lemma foundArg_sample : ∀ args ∈ sampleArgs, args.map (vars.foundArg parseArg) = (args.map Arg.type).map some := by
  simp [sampleArgs, VarStore.foundArg, Arg.type]

/-- A registered prototype accepts the argument lists of its types and no other, and accepts some list, unless it
has a comma: then it accepts none. -/
theorem registered_accepts_iff (vars : VarStore) (h : prototype ∈ registeredPrototypes parseArg) :
    ((∀ args, (checkPrototype parseArg vars prototype args).1 = none ↔
        ∃ types, args.map (vars.foundArg parseArg) = types.map some ∧ typeLetters types = listedLetters prototype) ∧
      ∃ args, (checkPrototype parseArg vars prototype args).1 = none) ↔ ',' ∉ prototype.toList := by
  constructor
  · rintro ⟨-,args,haccepted⟩
    obtain ⟨types,-,rfl⟩ := checkPrototype_eq_none.mp haccepted
    exact comma_notMem_prototypeOf types
  · intro hcomma
    obtain ⟨args,hargs,rfl⟩ := exists_sample h hcomma
    refine ⟨fun args' => ?_,args,?_⟩
    · rw [checkPrototype_eq_none]
      exact exists_congr fun types => and_congr_right fun _ => prototypeOf_eq_iff
    · exact checkPrototype_eq_none.mpr ⟨_,foundArg_sample args hargs,rfl⟩

/-- A condition on one string. -/
theorem registered_accepts_string :
    ((∀ args, (checkPrototype (fun _ => none) ⟨[],fun _ => none⟩ "s" args).1 = none ↔
      ∃ types, args.map (VarStore.foundArg (fun _ => none) ⟨[],fun _ => none⟩) = types.map some ∧
        typeLetters types = listedLetters "s") ∧
    ∃ args, (checkPrototype (fun _ => none) ⟨[],fun _ => none⟩ "s" args).1 = none) ↔ ',' ∉ "s".toList :=
  registered_accepts_iff ⟨[],fun _ => none⟩ (by rw [registeredPrototypes_eq]; simp)

/-- The three conditions on one battery are registered with a prototype that no argument list meets, not even two
integers. -/
theorem battery_conditions_accept_nothing :
    "i, i" ∈ registeredPrototypes (fun _ => none) ∧ listedLetters "i, i" = typeLetters [.int, .int] ∧
    (∀ args, (checkPrototype (fun _ => none) ⟨[],fun _ => none⟩ "i, i" args).1 ≠ none) ∧
    (checkPrototype (fun _ => none) ⟨[],fun _ => none⟩ "i, i" [.int 0, .int 50]).1 =
      some "not enough args supplied; expected \"intunknown_type int\", received \"int int\"" := by
  refine ⟨by rw [registeredPrototypes_eq]; simp,rfl,fun args haccepted => ?_,rfl⟩
  obtain ⟨types,-,htypes⟩ := checkPrototype_eq_none.mp haccepted
  exact comma_notMem_prototypeOf types (htypes ▸ by decide)

end Acceptance

end Xctools.Xcpmd
