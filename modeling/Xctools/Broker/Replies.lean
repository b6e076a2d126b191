import Mathlib.Data.List.Basic
import Xctools.Broker.Json
import Xctools.Machine.Stream

/-! Replies of the bus on their way to a websocket client: `load_json_response` and `parse_signature`. Arrays
are not nested but added element by element to what is at hand: to an array, or to an object under the key of
a dictionary entry, where an element takes the place of the one before it. -/
namespace Xctools.Broker
open Machine

section Values

/-- The first letter of a type's signature. -/
def DbusType.letter : DbusType → Char
  | string => 's'
  | objectPath => 'o'
  | int32 => 'i'
  | uint32 => 'u'
  | int64 => 'x'
  | boolean => 'b'
  | double => 'd'
  | variant => 'v'
  | array _ | dict _ => 'a'

/-- Induction over values with those in arrays and dictionaries. -/
theorem DbusValue.induction {motive : DbusValue → Prop} (string : ∀ s, motive (.string s))
    (objectPath : ∀ s, motive (.objectPath s)) (int32 : ∀ v, motive (.int32 v)) (uint32 : ∀ v, motive (.uint32 v))
    (int64 : ∀ v, motive (.int64 v)) (boolean : ∀ b, motive (.boolean b)) (double : ∀ t, motive (.double t))
    (variant : ∀ v, motive v → motive (.variant v))
    (array : ∀ t items, (∀ v ∈ items, motive v) → motive (.array t items))
    (dict : ∀ t entries, (∀ e ∈ entries, motive e.2) → motive (.dict t entries)) (v : DbusValue) : motive v :=
  @DbusValue.rec motive (fun items => ∀ v ∈ items, motive v) (fun entries => ∀ e ∈ entries, motive e.2)
    (fun e => motive e.2) string objectPath int32 uint32 int64 boolean double (fun v => variant v)
    (fun t items => array t items) (fun t entries => dict t entries)
    (fun _ h => nomatch h) (fun _ _ hv hvs => List.forall_mem_cons.mpr ⟨hv,hvs⟩)
    (fun _ h => nomatch h) (fun _ _ he hes => List.forall_mem_cons.mpr ⟨he,hes⟩) (fun _ _ h => h) v

end Values

section Conversion

/-- `json_object_object_add`: what stands under the key is replaced in its place. -/
def objectAdd : List (String × Json) → String → Json → List (String × Json)
  | [], key, jobj => [(key, jobj)]
  | (k, j) :: fields, key, jobj => if k = key then (k, jobj) :: fields else (k, j) :: objectAdd fields key jobj

/-- What `parse_signature` adds to: an array without a key, or an object under a key. -/
inductive Sink
  | array (items : List Json)
  | object (fields : List (String × Json)) (key : String)

/-- `add_jobj`. -/
def addJobj : Sink → Json → Sink
  | .array items, jobj => .array (items ++ [jobj])
  | .object fields key, jobj => .object (objectAdd fields key jobj) key

/-- An empty array under a key becomes an empty object. -/
def addEmpty : Sink → Sink
  | .array items => .array items
  | .object fields key => addJobj (.object fields key) (.object [])

def Sink.fields : Sink → List (String × Json)
  | array _ => []
  | object fields _ => fields

mutual

/-- One turn of the loop of `parse_signature`, with `add_json_array` for arrays and `parse_dbus_dict` for an
array of entries. The numbers pass through an `int` on their way to JSON. -/
def parseValue : Sink → DbusValue → Sink
  | args, .string s => addJobj args (.string s)
  | args, .objectPath s => addJobj args (.string s)
  | args, .int32 v => addJobj args (.int v.toInt)
  | args, .uint32 v => addJobj args (.int v.toInt)
  | args, .int64 v => addJobj args (.int v.toInt)
  | args, .boolean b => addJobj args (.bool b)
  | args, .double t => addJobj args (.double t)
  | args, .variant v => parseValue args v
  | args, .array _ [] => addEmpty args
  | args, .array _ (v :: items) => parseSignature (parseValue args v) items
  | args, .dict _ [] => addEmpty args
  | args, .dict _ ((key, v) :: entries) =>
    addJobj args (.object (parseDbusDict (parseValue (.object [] key) v).fields entries))

/-- `parse_signature`. -/
def parseSignature : Sink → List DbusValue → Sink
  | args, [] => args
  | args, v :: values => parseSignature (parseValue args v) values

/-- The loop of `parse_dbus_dict`. -/
def parseDbusDict : List (String × Json) → List (String × DbusValue) → List (String × Json)
  | dict, [] => dict
  | dict, (key, v) :: entries => parseDbusDict (parseValue (.object dict key) v).fields entries

end

def Sink.items : Sink → List Json
  | array items => items
  | object _ _ => []

/-- `load_json_response`: the arguments of the response. Of a reply that begins with an array, only that array
is read; for some types of elements it is put in an array of its own. -/
def loadJsonResponse : List DbusValue → List Json
  | .array element items :: _ =>
    let array := (parseSignature (.array []) items).items
    if element.letter ∈ ['a', 'i', 's', 'o'] then [.array array] else array
  | .dict _ [] :: _ => []
  | .dict _ (e :: entries) :: _ => [.object (parseDbusDict [] (e :: entries))]
  | reply => (parseSignature (.array []) reply).items

end Conversion

section Sizes

lemma sizeOf_snd_lt {α : Type*} [SizeOf α] {e : String × α} {l : List (String × α)} (h : e ∈ l) :
    sizeOf e.2 < sizeOf l := by
  have hmem := List.sizeOf_lt_of_mem h
  obtain ⟨key,value⟩ := e
  simp only [Prod.mk.sizeOf_spec] at hmem ⊢
  omega

lemma DbusValue.sizeOf_value_lt (v : DbusValue) : sizeOf v < sizeOf (variant v) := by
  rw [variant.sizeOf_spec]
  omega

lemma DbusValue.sizeOf_item_lt {t : DbusType} {v : DbusValue} {items : List DbusValue} (h : v ∈ items) :
    sizeOf v < sizeOf (array t items) := by
  have hmem := List.sizeOf_lt_of_mem h
  rw [array.sizeOf_spec]
  omega

lemma DbusValue.sizeOf_entry_lt {t : DbusType} {e : String × DbusValue} {entries : List (String × DbusValue)}
    (h : e ∈ entries) : sizeOf e.2 < sizeOf (dict t entries) := by
  have hmem := sizeOf_snd_lt h
  rw [dict.sizeOf_spec]
  omega

end Sizes

section Meaning

/-- The basic values of a JSON value in their order, each with the keys that lead to it. -/
def Json.leaves (path : List String) : Json → List (List String × Json)
  | .array items => items.flatMap fun j => j.leaves path
  | .object fields => fields.flatMap fun f => f.2.leaves (path ++ [f.1])
  | j => [(path, j)]
termination_by j => sizeOf j
decreasing_by
  · have hmem := List.sizeOf_lt_of_mem ‹_ ∈ items›
    simp only [Json.array.sizeOf_spec]
    omega
  · have hmem := sizeOf_snd_lt ‹_ ∈ fields›
    simp only [Json.object.sizeOf_spec]
    omega

/-- The basic values of a D-Bus value in their order, each with the keys of the dictionaries it is in. -/
def DbusValue.basics (path : List String) : DbusValue → List (List String × Json)
  | .string s | .objectPath s => [(path, .string s)]
  | .int32 v => [(path, .int v.toInt)]
  | .uint32 v => [(path, .int v.toNat)]
  | .int64 v => [(path, .int v.toInt)]
  | .boolean b => [(path, .bool b)]
  | .double t => [(path, .double t)]
  | .variant v => v.basics path
  | .array _ items => items.flatMap fun v => v.basics path
  | .dict _ entries => entries.flatMap fun e => e.2.basics (path ++ [e.1])
termination_by v => sizeOf v
decreasing_by
  · exact sizeOf_value_lt _
  · exact sizeOf_item_lt ‹_›
  · exact sizeOf_entry_lt ‹_›

/-- The keys of each dictionary are distinct. -/
def DbusValue.Distinct : DbusValue → Prop
  | .variant v => v.Distinct
  | .array _ items => ∀ v ∈ items, v.Distinct
  | .dict _ entries => (entries.map Prod.fst).Nodup ∧ ∀ e ∈ entries, e.2.Distinct
  | _ => True
termination_by v => sizeOf v
decreasing_by
  · exact sizeOf_value_lt _
  · exact sizeOf_item_lt ‹_›
  · exact sizeOf_entry_lt ‹_›

/-- The response holds the basic values of the reply, all of them, in their order and under their keys. -/
def NothingDropped (reply : List DbusValue) : Prop :=
  (loadJsonResponse reply).flatMap (Json.leaves []) = reply.flatMap (DbusValue.basics [])

end Meaning

section Condition

/-- There is no basic value in a value. -/
def DbusValue.Bare : DbusValue → Prop
  | .variant v => v.Bare
  | .array _ items => ∀ v ∈ items, v.Bare
  | .dict _ entries => ∀ e ∈ entries, e.2.Bare
  | _ => False
termination_by v => sizeOf v
decreasing_by
  · exact sizeOf_value_lt _
  · exact sizeOf_item_lt ‹_›
  · exact sizeOf_entry_lt ‹_›

/-- What is added of a value, one after the other: the elements of arrays, what is in variants, and an array
without elements itself. -/
def DbusValue.parts : DbusValue → List DbusValue
  | .variant v => v.parts
  | .array t items => if items = [] then [.array t []] else items.flatMap fun v => v.parts
  | v => [v]
termination_by v => sizeOf v
decreasing_by
  · exact sizeOf_value_lt _
  · exact sizeOf_item_lt ‹_›

/-- Under a key only the last part has basic values, and no `uint32` is beyond the `int`s. -/
def DbusValue.Kept : DbusValue → Prop
  | .uint32 v => v.toNat < 2147483648
  | .variant v => v.Kept
  | .array _ items => ∀ v ∈ items, v.Kept
  | .dict _ entries => ∀ e ∈ entries, e.2.Kept ∧ ∀ p ∈ e.2.parts.dropLast, p.Bare
  | _ => True
termination_by v => sizeOf v
decreasing_by
  · exact sizeOf_value_lt _
  · exact sizeOf_item_lt ‹_›
  · exact sizeOf_entry_lt ‹_›

/-- The same of a reply, of which nothing is read behind an array. -/
def ReplyKept : List DbusValue → Prop
  | [] => True
  | .array t items :: rest => (DbusValue.array t items).Kept ∧ ∀ v ∈ rest, v.Bare
  | .dict t entries :: rest => (DbusValue.dict t entries).Kept ∧ ∀ v ∈ rest, v.Bare
  | v :: rest => v.Kept ∧ ∀ v ∈ rest, v.Kept

end Condition

section Parts

/-- What becomes of a part under a key. -/
def DbusValue.made : DbusValue → Json
  | .string s | .objectPath s => .string s
  | .int32 v | .uint32 v => .int v.toInt
  | .int64 v => .int v.toInt
  | .boolean b => .bool b
  | .double t => .double t
  | .dict _ entries => .object (parseDbusDict [] entries)
  | .variant _ | .array _ _ => .object []

/-- A part is added; without a key nothing is for an empty array. -/
def addPart (args : Sink) : DbusValue → Sink
  | .variant _ | .array _ _ | .dict _ [] => addEmpty args
  | p => addJobj args p.made

lemma parseSignature_eq (args : Sink) (values : List DbusValue) :
    parseSignature args values = values.foldl parseValue args := by
  induction values generalizing args with
  | nil => rfl
  | cons v values ih => rw [parseSignature, ih, List.foldl_cons]

lemma parseValue_eq (args : Sink) (v : DbusValue) : parseValue args v = v.parts.foldl addPart args := by
  induction v using DbusValue.induction generalizing args with
  | string s => simp [parseValue, DbusValue.parts, addPart, DbusValue.made]
  | objectPath s => simp [parseValue, DbusValue.parts, addPart, DbusValue.made]
  | int32 v => simp [parseValue, DbusValue.parts, addPart, DbusValue.made]
  | uint32 v => simp [parseValue, DbusValue.parts, addPart, DbusValue.made]
  | int64 v => simp [parseValue, DbusValue.parts, addPart, DbusValue.made]
  | boolean b => simp [parseValue, DbusValue.parts, addPart, DbusValue.made]
  | double t => simp [parseValue, DbusValue.parts, addPart, DbusValue.made]
  | variant v ih => rw [parseValue, ih, DbusValue.parts]
  | array t items ih =>
    cases items with
    | nil => simp [parseValue, DbusValue.parts, addPart]
    | cons v items =>
      rw [parseValue, parseSignature_eq, ← List.foldl_cons, DbusValue.parts, if_neg (List.cons_ne_nil v items),
        List.foldl_flatMap]
      exact List.foldl_ext _ _ _ fun args v hv => ih v hv args
  | dict t entries ih =>
    cases entries with
    | nil => simp [parseValue, DbusValue.parts, addPart]
    | cons e entries => simp [parseValue, DbusValue.parts, addPart, DbusValue.made, parseDbusDict]

lemma parts_ne_nil (v : DbusValue) : v.parts ≠ [] := by
  induction v using DbusValue.induction with
  | array t items ih =>
    cases items with
    | nil => simp [DbusValue.parts]
    | cons v items =>
      rw [DbusValue.parts, if_neg (List.cons_ne_nil v items), List.flatMap_cons]
      exact List.append_ne_nil_of_left_ne_nil (ih v List.mem_cons_self) _
  | variant v ih =>
    rw [DbusValue.parts]
    exact ih
  | _ => simp [DbusValue.parts]

lemma objectAdd_objectAdd (fields : List (String × Json)) (key : String) (a b : Json) :
    objectAdd (objectAdd fields key a) key b = objectAdd fields key b := by
  induction fields with
  | nil => simp [objectAdd]
  | cons f fields ih =>
    rw [objectAdd, objectAdd]
    split_ifs with h
    · simp [objectAdd, h]
    · simp [objectAdd, h, ih]

lemma addPart_object (fields : List (String × Json)) (key : String) (p : DbusValue) :
    addPart (.object fields key) p = .object (objectAdd fields key p.made) key := by
  cases p with
  | dict t entries => cases entries <;> rfl
  | _ => rfl

/-- Under a key only the last part stays. -/
lemma foldl_addPart_object (fields : List (String × Json)) (key : String) (ps : List DbusValue) (p : DbusValue) :
    (ps ++ [p]).foldl addPart (.object fields key) = .object (objectAdd fields key p.made) key := by
  induction ps generalizing fields with
  | nil => exact addPart_object fields key p
  | cons q ps ih => rw [List.cons_append, List.foldl_cons, addPart_object, ih, objectAdd_objectAdd]

lemma leaves_addPart (path : List String) (items : List Json) (p : DbusValue) :
    ∃ items', addPart (.array items) p = .array items' ∧ items'.flatMap (Json.leaves path) =
      items.flatMap (Json.leaves path) ++ p.made.leaves path := by
  have hadded : ∀ jobj, (items ++ [jobj]).flatMap (Json.leaves path) =
      items.flatMap (Json.leaves path) ++ jobj.leaves path := by
    intro jobj
    rw [List.flatMap_append, List.flatMap_singleton]
  have hempty : (Json.object []).leaves path = [] := by simp [Json.leaves]
  cases p with
  | variant v => exact ⟨items,rfl,by simp [DbusValue.made, hempty]⟩
  | array t vs => exact ⟨items,rfl,by simp [DbusValue.made, hempty]⟩
  | dict t entries =>
    cases entries with
    | nil => exact ⟨items,rfl,by simp [DbusValue.made, parseDbusDict, hempty]⟩
    | cons e entries => exact ⟨_,rfl,hadded _⟩
  | _ => exact ⟨_,rfl,hadded _⟩

/-- In an array all parts stay. -/
lemma leaves_foldl_addPart (path : List String) (items : List Json) (ps : List DbusValue) :
    (ps.foldl addPart (.array items)).items.flatMap (Json.leaves path) =
      items.flatMap (Json.leaves path) ++ ps.flatMap fun p => p.made.leaves path := by
  induction ps generalizing items with
  | nil => simp [Sink.items]
  | cons p ps ih =>
    obtain ⟨items',hadd,hleaves⟩ := leaves_addPart path items p
    rw [List.foldl_cons, hadd, ih, hleaves, List.flatMap_cons, List.append_assoc]

/-- What is left of the value of an entry. -/
def DbusValue.lastPart (v : DbusValue) : DbusValue := v.parts.getLast (parts_ne_nil v)

lemma parseValue_object (fields : List (String × Json)) (key : String) (v : DbusValue) :
    parseValue (.object fields key) v = .object (objectAdd fields key v.lastPart.made) key := by
  rw [parseValue_eq, ← List.dropLast_append_getLast (parts_ne_nil v), foldl_addPart_object]
  rfl

lemma objectAdd_of_notMem {fields : List (String × Json)} {key : String} (h : key ∉ fields.map Prod.fst) (jobj : Json) :
    objectAdd fields key jobj = fields ++ [(key, jobj)] := by
  induction fields with
  | nil => rfl
  | cons f fields ih =>
    obtain ⟨hf,hfields⟩ := not_or.mp (mt List.mem_cons.mpr h)
    rw [objectAdd, if_neg (Ne.symm hf), ih hfields, List.cons_append]

/-- With distinct keys every entry keeps its last part. -/
lemma parseDbusDict_eq {entries : List (String × DbusValue)} {fields : List (String × Json)}
    (h : (fields.map Prod.fst ++ entries.map Prod.fst).Nodup) :
    parseDbusDict fields entries = fields ++ entries.map fun e => (e.1, e.2.lastPart.made) := by
  induction entries generalizing fields with
  | nil => simp [parseDbusDict]
  | cons e entries ih =>
    obtain ⟨key,v⟩ := e
    have hkey : key ∉ fields.map Prod.fst := by
      intro hmem
      exact (List.nodup_append.mp h).2.2 key hmem key List.mem_cons_self rfl
    rw [parseDbusDict, parseValue_object, Sink.fields, objectAdd_of_notMem hkey, ih]
    · simp
    · simpa using h

end Parts

section Main

lemma basics_eq_parts (path : List String) (v : DbusValue) :
    v.basics path = v.parts.flatMap (DbusValue.basics path) := by
  induction v using DbusValue.induction with
  | variant v ih => rw [DbusValue.basics, DbusValue.parts, ih]
  | array t items ih =>
    rw [DbusValue.basics, DbusValue.parts]
    split_ifs with hnil
    · simp [hnil, DbusValue.basics]
    · rw [List.flatMap_assoc]
      exact List.flatMap_congr fun v hv => ih v hv
  | _ => simp [DbusValue.parts]

lemma bare_iff (path : List String) (v : DbusValue) : v.Bare ↔ v.basics path = [] := by
  induction v using DbusValue.induction generalizing path with
  | variant v ih => rw [DbusValue.Bare, DbusValue.basics, ih]
  | array t items ih =>
    rw [DbusValue.Bare, DbusValue.basics, List.flatMap_eq_nil_iff]
    exact forall₂_congr fun v hv => ih v hv path
  | dict t entries ih =>
    rw [DbusValue.Bare, DbusValue.basics, List.flatMap_eq_nil_iff]
    exact forall₂_congr fun e he => ih e he (path ++ [e.1])
  | _ => simp [DbusValue.Bare, DbusValue.basics]

lemma kept_iff_parts (v : DbusValue) : v.Kept ↔ ∀ p ∈ v.parts, p.Kept := by
  induction v using DbusValue.induction with
  | variant v ih => rw [DbusValue.Kept, DbusValue.parts, ih]
  | array t items ih =>
    rw [DbusValue.Kept, DbusValue.parts]
    split_ifs with hnil
    · simp [hnil, DbusValue.Kept]
    · rw [List.forall_mem_flatMap]
      exact forall₂_congr ih
  | _ => simp [DbusValue.parts]

lemma toInt_eq_toNat_iff (v : BitVec 32) : v.toInt = v.toNat ↔ v.toNat < 2147483648 := by
  have hlt := v.isLt
  rw [BitVec.toInt_eq_toNat_cond]
  split_ifs <;> omega

/-- A part comes out with its basic values, or with fewer if it is not kept. -/
def Faithful (p : DbusValue) : Prop :=
  ∀ path, (p.made.leaves path).length ≤ (p.basics path).length ∧ (p.made.leaves path = p.basics path ↔ p.Kept)

/-- Of the value of an entry, the last part is all only if there is nothing in the others. -/
lemma lastPart_leaves_iff {v : DbusValue} (h : ∀ p ∈ v.parts, Faithful p) (path : List String) :
    (v.lastPart.made.leaves path).length ≤ (v.basics path).length ∧
      (v.lastPart.made.leaves path = v.basics path ↔ v.Kept ∧ ∀ p ∈ v.parts.dropLast, p.Bare) := by
  have hparts : v.parts.dropLast ++ [v.lastPart] = v.parts := List.dropLast_append_getLast (parts_ne_nil v)
  have hlast : v.lastPart ∈ v.parts := List.getLast_mem (parts_ne_nil v)
  obtain ⟨hle,hiff⟩ := h _ hlast path
  have hbasics : v.basics path = v.parts.dropLast.flatMap (DbusValue.basics path) ++ v.lastPart.basics path := by
    rw [basics_eq_parts, ← hparts, List.flatMap_append, List.flatMap_singleton, List.dropLast_concat]
  have hlength := congrArg List.length hbasics
  rw [List.length_append] at hlength
  refine ⟨by omega,?_⟩
  constructor
  · intro heq
    have hsame := congrArg List.length heq
    have hnil : v.parts.dropLast.flatMap (DbusValue.basics path) = [] := List.length_eq_zero_iff.mp (by omega)
    have hbare : ∀ p ∈ v.parts.dropLast, p.basics path = [] := List.flatMap_eq_nil_iff.mp hnil
    refine ⟨?_,fun p hp => (bare_iff path p).mpr (hbare p hp)⟩
    rw [kept_iff_parts, ← hparts, List.forall_mem_append, List.forall_mem_singleton]
    refine ⟨fun p hp => ?_,?_⟩
    · -- a part without basic values cannot lose any
      obtain ⟨hle',hiff'⟩ := h p (List.dropLast_subset _ hp) path
      rw [← hiff', hbare p hp]
      rw [hbare p hp] at hle'
      exact List.length_eq_zero_iff.mp (Nat.le_zero.mp hle')
    · rw [← hiff, heq, hbasics, hnil, List.nil_append]
  · rintro ⟨hkept,hbare⟩
    have hnil : v.parts.dropLast.flatMap (DbusValue.basics path) = [] :=
      List.flatMap_eq_nil_iff.mpr fun p hp => (bare_iff path p).mp (hbare p hp)
    rw [hbasics, hnil, List.nil_append, hiff]
    exact (kept_iff_parts v).mp hkept _ hlast

/-- With distinct keys the parts of a value come out so. -/
lemma faithful_parts {v : DbusValue} (h : v.Distinct) : ∀ p ∈ v.parts, Faithful p := by
  induction v using DbusValue.induction with
  | variant v ih =>
    rw [DbusValue.Distinct] at h
    rw [DbusValue.parts]
    exact ih h
  | array t items ih =>
    rw [DbusValue.Distinct] at h
    rw [DbusValue.parts]
    split_ifs with hnil
    · rw [List.forall_mem_singleton]
      intro path
      simp [DbusValue.made, Json.leaves, DbusValue.basics, DbusValue.Kept]
    · rw [List.forall_mem_flatMap]
      exact fun v hv => ih v hv (h v hv)
  | dict t entries ih =>
    rw [DbusValue.Distinct] at h
    simp only [DbusValue.parts, List.forall_mem_singleton]
    intro path
    have hentry : ∀ e ∈ entries, _ := fun e he => lastPart_leaves_iff (ih e he (h.2 e he)) (path ++ [e.1])
    rw [DbusValue.made, parseDbusDict_eq (by simpa using h.1), List.nil_append, Json.leaves, List.flatMap_map,
      DbusValue.basics, DbusValue.Kept]
    refine ⟨length_flatMap_le fun e he => (hentry e he).1,?_⟩
    rw [flatMap_eq_flatMap_iff fun e he => (hentry e he).1]
    exact forall₂_congr fun e he => (hentry e he).2
  | uint32 v =>
    simp only [DbusValue.parts, List.forall_mem_singleton]
    intro path
    simp [DbusValue.made, Json.leaves, DbusValue.basics, DbusValue.Kept, toInt_eq_toNat_iff]
  | _ =>
    simp only [DbusValue.parts, List.forall_mem_singleton]
    intro path
    simp [DbusValue.made, Json.leaves, DbusValue.basics, DbusValue.Kept]

/-- The basic values of an array that values were added to. -/
lemma leaves_parseSignature (path : List String) (values : List DbusValue) :
    (parseSignature (.array []) values).items.flatMap (Json.leaves path) =
      values.flatMap fun v => v.parts.flatMap fun p => p.made.leaves path := by
  have hparts : values.foldl parseValue (.array []) = (values.flatMap DbusValue.parts).foldl addPart (.array []) := by
    rw [List.foldl_flatMap]
    exact List.foldl_ext _ _ _ fun args v _ => parseValue_eq args v
  rw [parseSignature_eq, hparts, leaves_foldl_addPart, List.flatMap_nil, List.nil_append, List.flatMap_assoc]

/-- They are those of the values if and only if these are kept. -/
lemma leaves_eq_basics_iff {values : List DbusValue} (h : ∀ v ∈ values, v.Distinct) (path : List String) :
    ((parseSignature (.array []) values).items.flatMap (Json.leaves path)).length ≤
      (values.flatMap (DbusValue.basics path)).length ∧
    ((parseSignature (.array []) values).items.flatMap (Json.leaves path) =
      values.flatMap (DbusValue.basics path) ↔ ∀ v ∈ values, v.Kept) := by
  rw [leaves_parseSignature]
  have hvalue : ∀ v ∈ values, (v.parts.flatMap fun p => p.made.leaves path).length ≤ (v.basics path).length ∧
      ((v.parts.flatMap fun p => p.made.leaves path) = v.basics path ↔ v.Kept) := by
    intro v hv
    have hfaithful := faithful_parts (h v hv)
    rw [basics_eq_parts, kept_iff_parts]
    refine ⟨length_flatMap_le fun p hp => (hfaithful p hp path).1,?_⟩
    rw [flatMap_eq_flatMap_iff fun p hp => (hfaithful p hp path).1]
    exact forall₂_congr fun p hp => (hfaithful p hp path).2
  refine ⟨length_flatMap_le fun v hv => (hvalue v hv).1,?_⟩
  rw [flatMap_eq_flatMap_iff fun v hv => (hvalue v hv).1]
  exact forall₂_congr fun v hv => (hvalue v hv).2

/-- What is read of the first value is all only if it is kept and nothing is behind it. -/
lemma append_eq_iff {α : Type} {a b c : List α} (h : a.length ≤ b.length) : a = b ++ c ↔ a = b ∧ c = [] := by
  constructor
  · intro heq
    have hlength := congrArg List.length heq
    rw [List.length_append] at hlength
    have hc : c = [] := List.length_eq_zero_iff.mp (by omega)
    rw [hc, List.append_nil] at heq
    exact ⟨heq,hc⟩
  · rintro ⟨rfl,rfl⟩
    exact (List.append_nil a).symm

/-- The response drops nothing of a reply exactly if, under each key, all basic values are in the last part of
the value, no `uint32` is beyond the `int`s, and none are behind an array at the start. -/
theorem nothingDropped_iff {reply : List DbusValue} (h : ∀ v ∈ reply, v.Distinct) :
    NothingDropped reply ↔ ReplyKept reply := by
  unfold NothingDropped
  cases reply with
  | nil => simp [loadJsonResponse, parseSignature, Sink.items, ReplyKept]
  | cons first rest =>
    have hplain := (leaves_eq_basics_iff h []).2
    rw [List.forall_mem_cons] at hplain
    have hbare : rest.flatMap (DbusValue.basics []) = [] ↔ ∀ v ∈ rest, v.Bare := by
      rw [List.flatMap_eq_nil_iff]
      exact forall₂_congr fun v _ => (bare_iff [] v).symm
    have hdistinct := h first List.mem_cons_self
    rw [List.flatMap_cons]
    cases first with
    | array t items =>
      rw [DbusValue.Distinct] at hdistinct
      obtain ⟨hle,hiff⟩ := leaves_eq_basics_iff hdistinct []
      have hleaves : (loadJsonResponse (.array t items :: rest)).flatMap (Json.leaves []) =
          (parseSignature (.array []) items).items.flatMap (Json.leaves []) := by
        rw [loadJsonResponse]
        split_ifs
        · rw [List.flatMap_singleton, Json.leaves]
        · rfl
      rw [hleaves, DbusValue.basics, append_eq_iff hle, hiff, hbare, ReplyKept, DbusValue.Kept]
    | dict t entries =>
      have hmade : (loadJsonResponse (.dict t entries :: rest)).flatMap (Json.leaves []) =
          (DbusValue.dict t entries).made.leaves [] := by
        cases entries with
        | nil => simp [loadJsonResponse, DbusValue.made, parseDbusDict, Json.leaves]
        | cons e entries => rw [loadJsonResponse, List.flatMap_singleton, DbusValue.made]
      have hfaithful : Faithful (.dict t entries) := faithful_parts hdistinct _ (by simp [DbusValue.parts])
      obtain ⟨hle,hiff⟩ := hfaithful []
      rw [hmade, append_eq_iff hle, hiff, hbare, ReplyKept]
    | _ => exact hplain

end Main

/-- A dictionary with one entry, whose value is an array of two strings. -/
def listReply : List DbusValue := [.dict (.array .string) [("k", .array .string [.string "a", .string "b"])]]

/-- The second string takes the place of the first. -/
theorem listReply_dropped : (∀ v ∈ listReply, v.Distinct) ∧
    (loadJsonResponse listReply).flatMap (Json.leaves []) = [(["k"], .string "b")] ∧
    listReply.flatMap (DbusValue.basics []) = [(["k"], .string "a"), (["k"], .string "b")] ∧
    ¬ NothingDropped listReply := by
  have hleaves : (loadJsonResponse listReply).flatMap (Json.leaves []) = [(["k"], .string "b")] := by
    have hload : loadJsonResponse listReply = [.object [("k", .string "b")]] := rfl
    simp [hload, Json.leaves]
  have hbasics : listReply.flatMap (DbusValue.basics []) = [(["k"], .string "a"), (["k"], .string "b")] := by
    simp [listReply, DbusValue.basics]
  refine ⟨by simp [listReply, DbusValue.Distinct],hleaves,hbasics,fun h => ?_⟩
  rw [NothingDropped, hleaves, hbasics] at h
  exact absurd (congrArg List.length h) (by decide)

/-- A reply as it comes from a property interface: a dictionary of variants. -/
def propertiesReply : List DbusValue := [.dict .variant [("name", .variant (.string "vm")), ("slot", .variant (.uint32 3))]]

theorem propertiesReply_kept : (∀ v ∈ propertiesReply, v.Distinct) ∧ NothingDropped propertiesReply := by
  have hdistinct : ∀ v ∈ propertiesReply, v.Distinct := by simp [propertiesReply, DbusValue.Distinct]
  refine ⟨hdistinct,(nothingDropped_iff hdistinct).mpr ?_⟩
  simp [propertiesReply, ReplyKept, DbusValue.Kept, DbusValue.parts]

end Xctools.Broker
