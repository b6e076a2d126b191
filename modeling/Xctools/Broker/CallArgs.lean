import Xctools.Broker.Replies
import Xctools.Broker.RequestSafety

/-! The arguments of a websocket request with what is stored for them. `append_dbus_message_arg` stores a number
or a string by a letter of the signature, and `make_dbus_call` reads it by a letter again. The first letter is
found with a pointer that null arguments do not move, the second by the position. -/
namespace Xctools.Broker
open Machine

section Conversion
variable (js : JsonC) (bus : Bus)

/-- An argument is stored as the letter of its place says, the type noted for a variant is the one it is stored
with, and it is read as it was written. -/
structure SentAsStored (letter : Char) (jarg : Json) (jsonType : Char) (slot : Slot) : Prop where
  stored : slot = storeArg js bus letter jarg
  noted : letter = 'v' → slot = storeBasic js bus jsonType jarg
  read : Returns (sendArg letter jsonType slot)

/-- The arguments of a request are all converted so. -/
def ConvertedAsSent (names : Names) (sig : Signature) (items : List Json) : Prop :=
  ∃ slots, storeJsonArgs js bus names (.array items) = .ok (some (sig, slots)) ∧
    ∀ (k : ℕ) jarg letter, items[k]? = some jarg → sig.letters[k]? = some letter →
      ∃ jsonType slot, slots[k]? = some (jsonType, slot) ∧ SentAsStored js bus letter jarg jsonType slot

/-- The letters of a signature, with their end, fit its buffer. -/
lemma argSignature_fits {names : Names} {sig : Signature} (h : argSignature bus names = .ok (some sig)) :
    sig.letters.length < sig.size ∧ sig.size ≤ dbusArgs := by
  obtain ⟨hfits,hsig⟩ := (argSignature_eq_ok_iff bus).mp h
  rw [signatureOf] at hsig
  split_ifs at hsig with hu
  · obtain rfl := Option.some.inj hsig
    exact ⟨by decide,by decide⟩
  · obtain ⟨reply,hreply,rfl⟩ := Option.map_eq_some_iff.mp hsig.symm
    obtain hu' | ⟨-,hreplies⟩ := hfits
    · exact absurd hu' hu
    · exact ⟨(hreplies reply hreply).2,Nat.le_refl _⟩

/-- What is stored by a letter is read by it. -/
lemma returns_sendArg {letter : Char} (h : letter ∈ ['s', 'u', 'i', 'b', 'v']) (jarg : Json) :
    Returns (sendArg letter (jsonDbusTypes jarg) (storeArg js bus letter jarg)) := by
  simp only [List.mem_cons, List.not_mem_nil, or_false] at h
  rcases h with rfl | rfl | rfl | rfl | rfl
  · exact ⟨_,rfl⟩
  · exact ⟨_,rfl⟩
  · exact ⟨_,rfl⟩
  · exact ⟨_,rfl⟩
  · cases jarg <;> exact ⟨_,rfl⟩

/-- Null is stored as an empty string, which only a string is converted to. -/
lemma storeArg_null_eq_iff {letter : Char} (h : letter ∈ ['s', 'u', 'i', 'b', 'v']) :
    Slot.string "" = storeArg js bus letter .null ↔ letter = 's' := by
  simp only [List.mem_cons, List.not_mem_nil, or_false] at h
  rcases h with rfl | rfl | rfl | rfl | rfl <;> simp [storeArg, storeBasic, argText, jsonDbusTypes]

lemma isNull_iff {jarg : Json} : jarg.isNull = true ↔ jarg = .null := by
  cases jarg <;> simp [Json.isNull]

/-- What the slot of an argument holds, and what that comes to. -/
lemma sentAsStored_storedOf_iff {sig : Signature} {items : List Json} {k : ℕ} {jarg : Json} {letter : Char}
    (hmem : letter ∈ ['s', 'u', 'i', 'b', 'v']) (hjarg : items[k]? = some jarg) :
    (∃ jsonType slot, (storedOf js bus sig 0 items)[k]? = some (jsonType, slot) ∧
      SentAsStored js bus letter jarg jsonType slot) ↔
    if jarg.isNull then letter = 's'
    else storeArg js bus (storedBy sig items k) jarg = storeArg js bus letter jarg := by
  rw [getElem?_storedOf, hjarg, Option.map_some]
  split_ifs with hnull
  · obtain rfl := isNull_iff.mp hnull
    constructor
    · rintro ⟨_,_,heq,hsent⟩
      obtain ⟨rfl,rfl⟩ := Prod.mk.inj (Option.some.inj heq)
      exact (storeArg_null_eq_iff js bus hmem).mp hsent.stored
    · rintro rfl
      exact ⟨_,_,rfl,rfl,fun hv => absurd hv (by decide),⟨_,rfl⟩⟩
  · rw [Nat.zero_add, ← storedBy]
    constructor
    · rintro ⟨_,_,heq,hsent⟩
      obtain ⟨rfl,rfl⟩ := Prod.mk.inj (Option.some.inj heq)
      exact hsent.stored
    · intro halike
      rw [halike]
      refine ⟨_,_,rfl,rfl,?_,returns_sendArg js bus hmem jarg⟩
      rintro rfl
      rfl

/-- The arguments are converted as they are sent exactly if null stands for strings only, and every other
argument is converted alike by the letter of its place and by the one it is stored by. -/
theorem convertedAsSent_iff {names : Names} {sig : Signature} {items : List Json}
    (hsig : argSignature bus names = .ok (some sig)) (hletters : ∀ c ∈ sig.letters, c ∈ ['s', 'u', 'i', 'b', 'v'])
    (hlength : items.length = sig.letters.length) :
    ConvertedAsSent js bus names sig items ↔
      ∀ (k : ℕ) jarg letter, items[k]? = some jarg → sig.letters[k]? = some letter →
        if jarg.isNull then letter = 's'
        else storeArg js bus (storedBy sig items k) jarg = storeArg js bus letter jarg := by
  obtain ⟨hsize,hmax⟩ := argSignature_fits bus hsig
  have hcount : items.countP (fun j => ¬ j.isNull) ≤ items.length := List.countP_le_length
  have hloop : storeLoop js bus sig 0 0 items = .ok (storedOf js bus sig 0 items) :=
    (storeLoop_eq_ok_iff (Nat.zero_le _) (Nat.zero_le _)).mpr ⟨⟨by omega,by omega⟩,rfl⟩
  have hstore : storeJsonArgs js bus names (.array items) = .ok (some (sig, storedOf js bus sig 0 items)) := by
    rw [storeJsonArgs, hsig, ok_bind]
    simp only [hloop, ok_bind]
    rfl
  have hslot := fun (k : ℕ) jarg letter (hjarg : items[k]? = some jarg) (hletter : sig.letters[k]? = some letter) =>
    @sentAsStored_storedOf_iff js bus sig items k jarg letter (hletters letter (List.mem_of_getElem? hletter)) hjarg
  rw [ConvertedAsSent, hstore]
  constructor
  · rintro ⟨slots,hslots,h⟩ k jarg letter hjarg hletter
    obtain ⟨-,rfl⟩ := Prod.mk.inj (Option.some.inj (Except.ok.inj hslots))
    exact (hslot k jarg letter hjarg hletter).mp (h k jarg letter hjarg hletter)
  · intro h
    exact ⟨_,rfl,fun k jarg letter hjarg hletter => (hslot k jarg letter hjarg hletter).mpr (h k jarg letter hjarg hletter)⟩

end Conversion

/-- What `m` of `org.a` takes here: a string and an integer. -/
def stringIntText : String :=
  "<node><interface name='org.a'><method name='m'><arg direction='in' type='s'/><arg direction='in' type='i'/></method></interface></node>"

/-- The bus with it. -/
def mixedBus : Bus :=
  { sampleBus with
    xmlParse := fun text => if text = stringIntText then some (methodNode ["s", "i"]) else none
    introspection := fun _ _ => some stringIntText }

def mixedNames : Names := ⟨.live "org.a",.null,"org.a","/","m"⟩

set_option maxRecDepth 1024 in
lemma argSignature_mixed : argSignature mixedBus mixedNames = .ok (some ⟨['s', 'i'],xmlSignatureMax⟩) := rfl

theorem convertedAsSent_strings : ConvertedAsSent plainJsonC mixedBus mixedNames ⟨['s', 'i'],xmlSignatureMax⟩
    [.string "a", .int 1] := by
  refine (convertedAsSent_iff plainJsonC mixedBus argSignature_mixed (by simp) rfl).mpr ?_
  intro k jarg letter hjarg hletter
  match k with
  | 0 =>
    cases hjarg
    cases hletter
    rfl
  | 1 =>
    cases hjarg
    cases hletter
    rfl
  | k + 2 => cases hjarg

/-- Behind null the integer is stored as a string, and its memory is sent as a number. -/
theorem null_shifts_letters : storeJsonArgs plainJsonC mixedBus mixedNames (.array [.null, .int 1]) =
      .ok (some (⟨['s', 'i'],xmlSignatureMax⟩,[('\x00', .string ""), ('i', .string "1")])) ∧
    sendArg 'i' 'i' (.string "1") = .error .wild ∧
    ¬ ConvertedAsSent plainJsonC mixedBus mixedNames ⟨['s', 'i'],xmlSignatureMax⟩ [.null, .int 1] := by
  have hstored : storeJsonArgs plainJsonC mixedBus mixedNames (.array [.null, .int 1]) =
      .ok (some (⟨['s', 'i'],xmlSignatureMax⟩,[('\x00', .string ""), ('i', .string "1")])) := by
    rw [storeJsonArgs, argSignature_mixed]
    rfl
  refine ⟨hstored,rfl,?_⟩
  rintro ⟨slots,hslots,h⟩
  rw [hstored] at hslots
  obtain ⟨-,rfl⟩ := Prod.mk.inj (Option.some.inj (Except.ok.inj hslots))
  obtain ⟨jsonType,slot,hslot,hsent⟩ := h 1 (.int 1) 'i' rfl rfl
  obtain ⟨rfl,rfl⟩ := Prod.mk.inj (Option.some.inj hslot)
  obtain ⟨v,hv⟩ := hsent.read
  cases hv

section Unsigned
variable (js : JsonC) (bus : Bus) (n : BitVec 32)

/-- Wherever it stands in a reply, the number is added to the response as it is. -/
def ShownAsIs : Prop := ∀ args, parseValue args (.uint32 n) = addJobj args (.int n.toNat)

/-- The number is sent as it is for an unsigned parameter. -/
def SentAsIs : Prop :=
  sendArg 'u' (jsonDbusTypes (.int n.toNat)) (storeArg js bus 'u' (.int n.toNat)) = .ok (some (.uint32 n))

/-- What is shown for the number in a reply is sent as the number. -/
def ReturnedAsIs : Prop := ∀ jarg, (∀ args, parseValue args (.uint32 n) = addJobj args jarg) →
  sendArg 'u' (jsonDbusTypes jarg) (storeArg js bus 'u' jarg) = .ok (some (.uint32 n))

lemma addJobj_array_injective {a b : Json} (h : ∀ args, addJobj args a = addJobj args b) : a = b := by
  have harray := Sink.array.inj (h (.array []))
  exact List.singleton_inj.mp harray

lemma shownAsIs_iff : ShownAsIs n ↔ n.toNat < 2147483648 := by
  rw [← toInt_eq_toNat_iff]
  constructor
  · intro h
    exact Json.int.inj (addJobj_array_injective h)
  · intro h args
    rw [parseValue, h]

lemma sendArg_storeArg_u (v : ℤ) : sendArg 'u' (jsonDbusTypes (.int v)) (storeArg js bus 'u' (.int v)) =
    .ok (some (.uint32 (saturate v))) := rfl

/-- json-c gives the largest `int` for all that is beyond it. -/
lemma sentAsIs_iff : SentAsIs js bus n ↔ n.toNat < 2147483648 := by
  rw [SentAsIs, sendArg_storeArg_u, Except.ok.injEq, Option.some.injEq, DbusValue.uint32.injEq]
  constructor
  · intro h
    by_contra hbig
    have hmax : saturate n.toNat = 2147483647#32 := by
      rw [saturate, Int.min_eq_right (by omega)]
      rfl
    rw [hmax] at h
    rw [← h] at hbig
    exact hbig (by decide)
  · intro h
    rw [saturate, Int.min_eq_left (by omega), Int.max_eq_right (by omega), BitVec.ofInt_natCast, BitVec.ofNat_toNat,
      BitVec.setWidth_eq]

/-- Inside the `int`s json-c changes nothing, so the sign that the reply has put is taken off again. -/
lemma returnedAsIs : ReturnedAsIs js bus n := by
  intro jarg hjarg
  obtain rfl : jarg = .int n.toInt := (addJobj_array_injective hjarg).symm
  have hlow := BitVec.le_two_mul_toInt (x := n)
  have hhigh := BitVec.two_mul_toInt_lt (x := n)
  rw [sendArg_storeArg_u, saturate, Int.min_eq_left (by omega), Int.max_eq_right (by omega), BitVec.ofInt_toInt]

/-- A number survives both conversions exactly if it is an `int`. -/
theorem uint32_survives_iff : ShownAsIs n ∧ SentAsIs js bus n ∧ ReturnedAsIs js bus n ↔ n.toNat < 2147483648 := by
  constructor
  · rintro ⟨hshown,-,-⟩
    exact (shownAsIs_iff n).mp hshown
  · intro h
    exact ⟨(shownAsIs_iff n).mpr h,(sentAsIs_iff js bus n).mpr h,returnedAsIs js bus n⟩

end Unsigned

/-- The first number beyond is shown with a sign, and sent as the largest `int`. -/
theorem uint32_high_lost :
    loadJsonResponse [.uint32 0x80000000#32] = [.int (-2147483648)] ∧
    sendArg 'u' 'i' (storeArg plainJsonC mixedBus 'u' (.int 2147483648)) = .ok (some (.uint32 0x7fffffff#32)) ∧
    ¬ ShownAsIs 0x80000000#32 ∧ ¬ SentAsIs plainJsonC mixedBus 0x80000000#32 := by
  refine ⟨rfl,rfl,?_,?_⟩
  · rw [shownAsIs_iff]
    decide
  · rw [sentAsIs_iff]
    decide

end Xctools.Broker
