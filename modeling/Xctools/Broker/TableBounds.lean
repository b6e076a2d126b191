import Mathlib.Data.List.TakeWhile
import Xctools.Broker.CallArgs
import Xctools.Broker.PolicyLoad
import Xctools.Broker.PropertyRequests

/-! The indices the broker uses on its tables of fixed size. A loop is followed past the end of its table, as the
code goes on there. -/
namespace Xctools.Broker
open Machine

section Tables

/-- The tables that are filled in a loop. -/
inductive Table
  | args
  | argSig
  | jsonSig
  | signature
  | domains
  deriving DecidableEq, Repr

def Table.size : Table → ℕ
  | args | argSig | jsonSig => dbusArgs
  | signature => xmlSignatureMax
  | domains => maxDomains

/-- An entry that is read or written. -/
structure Access where
  table : Table
  index : ℕ
  deriving DecidableEq, Repr

def Access.Within (a : Access) : Prop := a.index < a.table.size

/-- No table is indexed past its end. -/
def Bounded (accesses : List Access) : Prop := ∀ a ∈ accesses, a.Within

@[simp] lemma bounded_nil : Bounded [] := List.forall_mem_nil _

@[simp] lemma bounded_cons {a : Access} {l : List Access} : Bounded (a :: l) ↔ a.Within ∧ Bounded l :=
  List.forall_mem_cons

@[simp] lemma bounded_append {l l' : List Access} : Bounded (l ++ l') ↔ Bounded l ∧ Bounded l' :=
  List.forall_mem_append

/-- The first `n` entries of a table. -/
def upTo (t : Table) (n : ℕ) : List Access := (List.range n).map fun i => ⟨t,i⟩

@[simp] lemma bounded_upTo {t : Table} {n : ℕ} : Bounded (upTo t n) ↔ n ≤ t.size := by
  simp only [Bounded, upTo, List.mem_map, List.mem_range, forall_exists_index, and_imp,
    forall_apply_eq_imp_iff₂, Access.Within]
  constructor
  · intro h
    by_contra hn
    exact absurd (h t.size (by omega)) (Nat.lt_irrefl _)
  · intro h i hi
    omega

/-- `arg_number`, a byte. -/
def argNumber (n : ℕ) : ℕ := n % 256

/-- What the loops over `arg_number` may read of a message. -/
def argReads (number : ℕ) : List Access := upTo .argSig number ++ upTo .jsonSig number ++ upTo .args number

@[simp] lemma bounded_argReads {n : ℕ} : Bounded (argReads n) ↔ n ≤ dbusArgs := by
  simp [argReads, Table.size]

end Tables

section Raw

def RawArg.isStored : RawArg → Bool
  | other => false
  | _ => true

/-- The loop of `convert_raw_dbus` from slot `argnum` on, with `argnum` at its end. The pointer an `int32` is
stored through is taken to lead nowhere that matters. -/
def rawLoop : ℕ → List RawArg → List Access × ℕ
  | argnum, [] => ([], argnum)
  | argnum, .other :: args => rawLoop argnum args
  | argnum, _ :: args =>
    let rest := rawLoop (argnum + 1) args
    (⟨.argSig,argnum⟩ :: ⟨.args,argnum⟩ :: rest.1, rest.2)

/-- `convert_raw_dbus`, and the loops over the message. -/
def rawAccesses (args : List RawArg) : List Access :=
  (rawLoop 0 args).1 ++ argReads (argNumber (rawLoop 0 args).2)

lemma countP_stored {arg : RawArg} {args : List RawArg} (h : arg.isStored = true) :
    (arg :: args).countP RawArg.isStored = args.countP RawArg.isStored + 1 := List.countP_cons_of_pos h

lemma rawLoop_snd (n : ℕ) (args : List RawArg) : (rawLoop n args).2 = n + args.countP RawArg.isStored := by
  induction args generalizing n with
  | nil => rfl
  | cons arg args ih =>
    have hstored : arg.isStored = true →
        (rawLoop (n + 1) args).2 = n + (arg :: args).countP RawArg.isStored := by
      intro h
      rw [ih, countP_stored h, Nat.add_assoc, Nat.add_comm 1]
    cases arg with
    | other => exact ih n
    | int32 => exact hstored rfl
    | string s => exact hstored rfl

lemma bounded_rawLoop {n : ℕ} {args : List RawArg} (hn : n ≤ dbusArgs) :
    Bounded (rawLoop n args).1 ↔ n + args.countP RawArg.isStored ≤ dbusArgs := by
  induction args generalizing n with
  | nil => simpa [rawLoop] using hn
  | cons arg args ih =>
    have hstored : arg.isStored = true →
        (Bounded (⟨.argSig,n⟩ :: ⟨.args,n⟩ :: (rawLoop (n + 1) args).1) ↔
          n + (arg :: args).countP RawArg.isStored ≤ dbusArgs) := by
      intro h
      simp only [bounded_cons, Access.Within, Table.size, countP_stored h]
      by_cases hlt : n < dbusArgs
      · rw [ih (by omega)]
        omega
      · omega
    cases arg with
    | other => exact ih hn
    | int32 => exact hstored rfl
    | string s => exact hstored rfl

lemma bounded_rawAccesses {args : List RawArg} :
    Bounded (rawAccesses args) ↔ args.countP RawArg.isStored ≤ dbusArgs := by
  rw [rawAccesses, bounded_append, bounded_rawLoop (Nat.zero_le _), bounded_argReads, rawLoop_snd, argNumber,
    Nat.zero_add]
  have hmod := Nat.mod_le (args.countP RawArg.isStored) 256
  omega

/-- The decoder of raw messages returns only where the tables are kept to. -/
theorem bounded_of_convertArgs {args : List RawArg} (h : Returns (convertArgs dbusMaxArgLen args)) :
    Bounded (rawAccesses args) := by
  obtain ⟨out,h⟩ := h
  obtain ⟨hint,hlen⟩ := storable_of_convertArgs h
  have hcount : args.countP RawArg.isStored = (storedStrings args).length := by
    rw [storedStrings, List.length_filterMap_eq_countP]
    refine List.countP_congr fun arg harg => ?_
    cases arg with
    | int32 => exact absurd harg hint
    | string s => simp [RawArg.isStored]
    | other => simp [RawArg.isStored]
  rw [bounded_rawAccesses, hcount]
  exact hlen

end Raw

section Request
variable (js : JsonC) (bus : Bus) (past : ℕ → Char)

/-- `*sigptr` after `k` steps, which may lead to what lies past the buffer. -/
def Signature.letter (sig : Signature) (k : ℕ) : Char :=
  if k < sig.size then sig.letters[k]?.getD '\x00' else past k

/-- The reads of a signature's buffer, if it is an introspected one. -/
def Signature.reads (sig : Signature) (l : List Access) : List Access := if sig.size = xmlSignatureMax then l else []

/-- `strncpy` of the signature to `arg_sig`: all but the last letter are written, and the signature is read to
its end. -/
def copyAccesses (sig : Signature) : List Access :=
  upTo .argSig (dbusArgs - 1) ++
    sig.reads (upTo .signature (min ((sig.letters.takeWhile (· ≠ '\x00')).length + 1) (dbusArgs - 1)))

/-- The loop of `parse_json_args` from argument `i` on, with `sigptr` at letter `k`. -/
def jsonLoop (sig : Signature) : ℕ → ℕ → List Json → List Access
  | _, _, [] => []
  | k, i, jarg :: jargs =>
    if jarg.isNull then ⟨.args,i⟩ :: jsonLoop sig k (i + 1) jargs
    else
      ⟨.jsonSig,i⟩ :: (sig.reads [⟨.signature,k⟩] ++
        (if storeArg js bus (sig.letter past k) jarg = .null then [] else [⟨.args,i⟩]) ++
          jsonLoop sig (k + 1) (i + 1) jargs)

/-- `parse_json_args`, and the loops over the message. -/
def jsonAccesses (sig : Signature) (items : List Json) : List Access :=
  copyAccesses sig ++ jsonLoop js bus past sig 0 0 items ++ argReads (argNumber items.length)

lemma bounded_reads {sig : Signature} {l : List Access} (h : Bounded l) : Bounded (sig.reads l) := by
  unfold Signature.reads
  split_ifs
  · exact h
  · exact bounded_nil

lemma bounded_copyAccesses (sig : Signature) : Bounded (copyAccesses sig) := by
  rw [copyAccesses, bounded_append]
  refine ⟨bounded_upTo.mpr (by decide),bounded_reads (bounded_upTo.mpr ?_)⟩
  exact Nat.le_trans (Nat.min_le_right _ _) (by decide)

lemma bounded_jsonLoop {sig : Signature} {k i : ℕ} {items : List Json} (hk : k ≤ i) (hi : i ≤ dbusArgs) :
    Bounded (jsonLoop js bus past sig k i items) ↔ i + items.length ≤ dbusArgs := by
  induction items generalizing k i with
  | nil => simpa [jsonLoop] using hi
  | cons jarg jargs ih =>
    rw [jsonLoop, List.length_cons]
    by_cases hlt : i < dbusArgs
    · have hargs : (⟨.args,i⟩ : Access).Within := hlt
      have hjson : (⟨.jsonSig,i⟩ : Access).Within := hlt
      have hread : (⟨.signature,k⟩ : Access).Within := Nat.lt_of_le_of_lt hk hlt
      have hsig : Bounded (sig.reads [⟨.signature,k⟩]) := bounded_reads (bounded_cons.mpr ⟨hread,bounded_nil⟩)
      split_ifs with hnull hslot
      · rw [bounded_cons, ih (by omega) hlt]
        simp only [hargs, true_and]
        omega
      · rw [bounded_cons, bounded_append, bounded_append, ih (by omega) hlt]
        simp only [hjson, hsig, bounded_nil, true_and]
        omega
      · rw [bounded_cons, bounded_append, bounded_append, ih (by omega) hlt]
        simp only [hjson, hsig, hargs, bounded_cons, bounded_nil, true_and]
        omega
    · have hno : ∀ t, t = Table.args ∨ t = Table.jsonSig → ¬ (⟨t,i⟩ : Access).Within := by
        rintro t (rfl | rfl)
        · exact hlt
        · exact hlt
      split_ifs with hnull
      · simp only [bounded_cons, hno .args (.inl rfl), false_and, false_iff]
        omega
      · simp only [bounded_cons, hno .jsonSig (.inr rfl), false_and, false_iff]
        omega
      · simp only [bounded_cons, hno .jsonSig (.inr rfl), false_and, false_iff]
        omega

lemma bounded_jsonAccesses {sig : Signature} {items : List Json} :
    Bounded (jsonAccesses js bus past sig items) ↔ items.length ≤ dbusArgs := by
  rw [jsonAccesses, bounded_append, bounded_append, bounded_jsonLoop js bus past (Nat.le_refl _) (Nat.zero_le _),
    bounded_argReads, argNumber, Nat.zero_add]
  have hmod := Nat.mod_le items.length 256
  have hcopy := bounded_copyAccesses sig
  constructor
  · rintro ⟨⟨-,h⟩,-⟩
    exact h
  · intro h
    exact ⟨⟨hcopy,h⟩,by omega⟩

/-- The arguments are stored exactly if the tables are kept to and the letters come from the signature. -/
theorem returns_storeLoop_iff {sig : Signature} {items : List Json} :
    Returns (storeLoop js bus sig 0 0 items) ↔
      Bounded (jsonAccesses js bus past sig items) ∧ items.countP (fun j => ¬ j.isNull) ≤ sig.size := by
  rw [bounded_jsonAccesses]
  constructor
  · rintro ⟨stored,h⟩
    simpa using ((storeLoop_eq_ok_iff (Nat.zero_le _) (Nat.zero_le _)).mp h).1
  · rintro ⟨hlen,hsize⟩
    exact ⟨storedOf js bus sig 0 items,(storeLoop_eq_ok_iff (Nat.zero_le _) (Nat.zero_le _)).mpr
      ⟨⟨by simpa using hlen,by simpa using hsize⟩,rfl⟩⟩

end Request

section Introspection
variable (bus : Bus)

/-- The loop of `retrieve_xml_signature` from letter `idx` on, with `idx` at its end. -/
def xmlLoop : ℕ → List XmlNode → List Access × ℕ
  | idx, [] => ([], idx)
  | idx, node :: siblings =>
    if node.getProp "direction" = some "in" then
      match node.getProp "type" with
      | some _ =>
        let rest := xmlLoop (idx + 1) siblings
        (⟨.signature,idx⟩ :: rest.1, rest.2)
      | none => xmlLoop idx siblings
    else ([], idx)

/-- `retrieve_xml_signature`: the letters, and the terminator after them. -/
def xmlAccesses (xml interface member : String) : List Access :=
  let loop := match bus.xmlParse xml with
    | none => ([], 0)
    | some root => xmlLoop 0 (findXmlProperty member (findXmlProperty interface root.children))
  loop.1 ++ [⟨.signature,loop.2⟩]

lemma xmlLoop_snd (idx : ℕ) (nodes : List XmlNode) : (xmlLoop idx nodes).2 = idx + (inLetters nodes).length := by
  induction nodes generalizing idx with
  | nil => rfl
  | cons node siblings ih =>
    rw [xmlLoop, inLetters]
    split_ifs
    · cases node.getProp "type" with
      | none => exact ih idx
      | some type => simp only [ih, List.length_cons, Nat.add_assoc, Nat.add_comm 1]
    · rfl

lemma bounded_xmlLoop {idx : ℕ} {nodes : List XmlNode} (hidx : idx ≤ xmlSignatureMax) :
    Bounded (xmlLoop idx nodes).1 ↔ idx + (inLetters nodes).length ≤ xmlSignatureMax := by
  induction nodes generalizing idx with
  | nil => simpa [xmlLoop, inLetters] using hidx
  | cons node siblings ih =>
    rw [xmlLoop, inLetters]
    split_ifs
    · cases node.getProp "type" with
      | none => exact ih hidx
      | some type =>
        simp only [bounded_cons, Access.Within, Table.size, List.length_cons]
        by_cases hlt : idx < xmlSignatureMax
        · rw [ih hlt]
          omega
        · omega
    · simpa using hidx

lemma bounded_xmlAccesses {xml interface member : String} :
    Bounded (xmlAccesses bus xml interface member) ↔
      (retrieveXmlSignature bus xml interface member).length < xmlSignatureMax := by
  rw [xmlAccesses, retrieveXmlSignature]
  cases bus.xmlParse xml with
  | none => simp [Access.Within, Table.size]
  | some root =>
    simp only [bounded_append, bounded_cons, bounded_nil, and_true, Access.Within, Table.size,
      bounded_xmlLoop (Nat.zero_le _), xmlLoop_snd, Nat.zero_add]
    omega

/-- An introspected text is asked for and decoded exactly if libdbus takes the names, the text fits its buffer, and
the letters theirs. -/
theorem returns_dbusIntrospect_iff {destination path : CStr} {interface member reply : String}
    (hreply : bus.introspection destination path = some reply) :
    Returns (dbusIntrospect bus destination path interface member) ↔
      Returns (bus.newMessage (introspectMessage destination path)) ∧ reply.utf8ByteSize < dbusIntrospectMax ∧
        Bounded (xmlAccesses bus reply interface member) := by
  rw [bounded_xmlAccesses, dbusIntrospect, returns_unit_bind_iff, hreply]
  refine and_congr_right fun _ => ?_
  simp only
  split_ifs with hfull hlong
  · simp [Nat.not_lt.mpr hfull]
  · simp [Nat.not_lt.mpr hlong]
  · simp [Nat.not_le.mp hfull, Nat.not_le.mp hlong]

end Introspection

section Domains
variable (src : PolicySource)

/-- The rules of a machine are read to their end. -/
def PolicySource.readsRules (vm : VmUuid) : Bool := (getRules src vm.text).isOk

/-- The loop of `build_policy` from entry `dom_idx` on, up to a machine whose rules are not read to their end. -/
def domainAccesses : ℕ → List VmUuid → List Access
  | _, [] => []
  | dom_idx, vm :: vms =>
    ⟨.domains,dom_idx⟩ :: if src.readsRules vm then domainAccesses (dom_idx + 1) vms else []

/-- `build_policy`, and the loops over `domain_count`, which is set if the first loop ends. -/
def policyAccesses : List Access :=
  match buildEtcPolicy src, src.vms with
  | .ok _, some vms =>
    domainAccesses src 0 vms ++ if vms.all src.readsRules then upTo .domains vms.length else []
  | _, _ => []

/-- The table has room for the machines, or for those up to one whose rules are not read to their end. -/
def PolicySource.HasRoom (vms : List VmUuid) : Prop :=
  vms.length ≤ maxDomains ∨ (vms.takeWhile src.readsRules).length < maxDomains

lemma bounded_domainAccesses {n : ℕ} {vms : List VmUuid} (hn : n ≤ maxDomains) :
    Bounded (domainAccesses src n vms) ↔
      n + vms.length ≤ maxDomains ∨ n + (vms.takeWhile src.readsRules).length < maxDomains := by
  induction vms generalizing n with
  | nil => simp [domainAccesses, hn]
  | cons vm vms ih =>
    rw [domainAccesses, bounded_cons, List.length_cons]
    by_cases hlt : n < maxDomains
    · have hwithin : (⟨.domains,n⟩ : Access).Within := hlt
      split_ifs with hreads
      · rw [ih hlt, List.takeWhile_cons_of_pos hreads, List.length_cons]
        simp only [hwithin, true_and]
        omega
      · rw [List.takeWhile_cons_of_neg hreads]
        simp [hwithin, hlt]
    · have hover : ¬ (⟨.domains,n⟩ : Access).Within := hlt
      simp only [hover, false_and, false_iff]
      omega

lemma bounded_policyAccesses : Bounded (policyAccesses src) ↔
    ∀ etc vms, buildEtcPolicy src = .ok etc → src.vms = some vms → src.HasRoom vms := by
  unfold policyAccesses
  cases hetc : buildEtcPolicy src with
  | error e => simp
  | ok etc =>
    cases hvms : src.vms with
    | none => simp
    | some vms =>
      have hrest : src.HasRoom vms →
          Bounded (if vms.all src.readsRules then upTo .domains vms.length else []) := by
        intro hroom
        split_ifs with hall
        · rw [PolicySource.HasRoom, List.takeWhile_eq_self_iff.mpr (by simpa using hall)] at hroom
          exact bounded_upTo.mpr (hroom.elim id Nat.le_of_lt)
        · exact bounded_nil
      have hloop : Bounded (domainAccesses src 0 vms) ↔ src.HasRoom vms := by
        simpa [PolicySource.HasRoom] using @bounded_domainAccesses src 0 vms (Nat.zero_le _)
      rw [bounded_append, hloop]
      constructor
      · rintro ⟨hroom,-⟩ _ _ _ heq
        obtain rfl := Option.some.inj heq
        exact hroom
      · intro h
        have hroom := h etc vms rfl rfl
        exact ⟨hroom,hrest hroom⟩

lemma length_le_of_domainsLoop {n : ℕ} {vms : List VmUuid} {domains : List DomainPolicy}
    (h : domainsLoop src n vms = .ok domains) : vms.length ≤ n := by
  induction vms generalizing n domains with
  | nil => exact Nat.zero_le n
  | cons vm vms ih =>
    cases n with
    | zero => cases h
    | succ n =>
      rw [domainsLoop] at h
      split_ifs at h
      obtain ⟨rules,-,h⟩ := bind_eq_ok.mp h
      obtain ⟨rest,hrest,-⟩ := bind_eq_ok.mp h
      exact Nat.succ_le_succ (ih hrest)

/-- A policy is built only where its table is kept to. -/
theorem bounded_of_buildPolicy (h : Returns (buildPolicy src)) : Bounded (policyAccesses src) := by
  refine (bounded_policyAccesses src).mpr fun etc vms hetc hvms => .inl ?_
  obtain ⟨policy,h⟩ := h
  rw [buildPolicy, hetc, ok_bind, hvms] at h
  obtain ⟨domains,hdomains,-⟩ := bind_eq_ok.mp h
  exact length_le_of_domainsLoop src hdomains

end Domains

section Filled

/-- An argument of the caller of a method. -/
def XmlNode.isIn (node : XmlNode) : Bool := node.getProp "direction" = some "in"

def XmlNode.isTyped (node : XmlNode) : Bool := (node.getProp "type").isSome

/-- The arguments of a method, as an introspection lists them. -/
def methodArgs (bus : Bus) (xml interface member : String) : List XmlNode :=
  match bus.xmlParse xml with
  | none => []
  | some root => findXmlProperty member (findXmlProperty interface root.children)

/-- The arguments of the caller that have a type, up to the first argument that is not the caller's. -/
def inCount (nodes : List XmlNode) : ℕ := (nodes.takeWhile XmlNode.isIn).countP XmlNode.isTyped

lemma length_inLetters (nodes : List XmlNode) : (inLetters nodes).length = inCount nodes := by
  induction nodes with
  | nil => rfl
  | cons node siblings ih =>
    rw [inLetters, inCount]
    split_ifs with hin
    · rw [List.takeWhile_cons_of_pos (by simpa [XmlNode.isIn] using hin)]
      cases htype : node.getProp "type" with
      | none => rw [List.countP_cons_of_neg (by simp [XmlNode.isTyped, htype]), ih, inCount]
      | some type => rw [List.countP_cons_of_pos (by simp [XmlNode.isTyped, htype]), List.length_cons, ih, inCount]
    · rw [List.takeWhile_cons_of_neg (by simpa [XmlNode.isIn] using hin)]
      rfl

lemma length_retrieveXmlSignature (bus : Bus) (xml interface member : String) :
    (retrieveXmlSignature bus xml interface member).length = inCount (methodArgs bus xml interface member) := by
  rw [retrieveXmlSignature, methodArgs]
  cases bus.xmlParse xml with
  | none => rfl
  | some root => exact length_inLetters _

/-- A table is kept to, and `arg_number` is the number of arguments stored, exactly if there are no more arguments
than slots; a signature leaves one for its end. -/
theorem tables_bounded_iff (js : JsonC) (bus : Bus) (past : ℕ → Char) (src : PolicySource) (args : List RawArg)
    (sig : Signature) (items : List Json) (xml interface member : String) :
    (Bounded (rawAccesses args) ∧ argNumber (rawLoop 0 args).2 = args.countP RawArg.isStored ↔
      args.countP RawArg.isStored ≤ dbusArgs) ∧
    (Bounded (jsonAccesses js bus past sig items) ∧ argNumber items.length = items.length ↔
      items.length ≤ dbusArgs) ∧
    (Bounded (xmlAccesses bus xml interface member) ↔
      inCount (methodArgs bus xml interface member) < xmlSignatureMax) ∧
    (Bounded (policyAccesses src) ↔
      ∀ etc vms, buildEtcPolicy src = .ok etc → src.vms = some vms → src.HasRoom vms) := by
  have hnumber : ∀ {n : ℕ}, n ≤ dbusArgs → argNumber n = n := fun h =>
    Nat.mod_eq_of_lt (Nat.lt_of_le_of_lt h (by decide))
  refine ⟨?_,?_,?_,bounded_policyAccesses src⟩
  · rw [bounded_rawAccesses, rawLoop_snd, Nat.zero_add]
    exact and_iff_left_of_imp hnumber
  · rw [bounded_jsonAccesses]
    exact and_iff_left_of_imp hnumber
  · rw [bounded_xmlAccesses, length_retrieveXmlSignature]

/-- Seventeen strings, the last of which goes past both tables. -/
theorem seventeen_strings_overrun : ⟨.argSig,16⟩ ∈ rawAccesses (List.replicate 17 (.string "")) ∧
    ⟨.args,16⟩ ∈ rawAccesses (List.replicate 17 (.string "")) ∧
    ¬ Bounded (rawAccesses (List.replicate 17 (.string ""))) := by
  have hsig : ⟨.argSig,16⟩ ∈ rawAccesses (List.replicate 17 (.string "")) := by decide
  have hargs : ⟨.args,16⟩ ∈ rawAccesses (List.replicate 17 (.string "")) := by decide
  exact ⟨hsig,hargs,fun h => absurd (h _ hargs) (Nat.lt_irrefl _)⟩

end Filled

end Xctools.Broker
