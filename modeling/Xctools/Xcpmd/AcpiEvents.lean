import Mathlib.Algebra.Group.Nat.Defs
import Mathlib.Data.List.Basic
import Mathlib.Data.List.Flatten
import Mathlib.Data.List.TakeWhile
import Xctools.Machine.Stream

/-! The events of acpid, `acpi-events.c`. What one `recv` returns is taken for one message, cut at the blanks
into at most sixteen tokens, and the first of them is cut again at the slashes. The handlers are seen by
their calls. -/
namespace Xctools.Xcpmd
open Machine

section Tokens

/-- `strsplit`: the token, and what is behind the delimiter that was found last. `last` is what the call
before has left; there is nothing once the end of the string was reached. -/
def strsplit (str : Option (List Char)) (delim : Char) (last : Option (List Char)) :
    Option (List Char) × Option (List Char) :=
  match str.or last with
  | none => (none, none)
  | some search => (some (search.takeWhile fun c => c ≠ delim),
      if delim ∈ search then some (search.dropWhile fun c => c ≠ delim).tail else none)

/-- The loop over the slots for the tokens. -/
def tokenLoop : ℕ → Option (List Char) → Option (List Char) → List (Option (List Char))
  | 0, _, _ => []
  | n + 1, token, last =>
    token :: tokenLoop n (strsplit none ' ' last).1 (strsplit none ' ' last).2

/-- `tokens[16]`. -/
def tokenize (buffer : List Char) : List (Option (List Char)) :=
  tokenLoop 16 (strsplit (some buffer) ' ' none).1 (strsplit (some buffer) ' ' none).2

end Tokens

section Hex

def isSpaceChar (c : Char) : Bool := c ∈ [' ', '\t', '\n', '\x0b', '\x0c', '\r']

/-- The value of a hexadecimal digit. -/
def hexDigit (c : Char) : Option ℕ :=
  if '0' ≤ c ∧ c ≤ '9' then some (c.toNat - '0'.toNat)
  else if 'a' ≤ c ∧ c ≤ 'f' then some (c.toNat - 'a'.toNat + 10)
  else if 'A' ≤ c ∧ c ≤ 'F' then some (c.toNat - 'A'.toNat + 10)
  else none

/-- The sign in front of a number, and the rest. -/
def takeSign (text : List Char) : Bool × List Char :=
  if text.head? = some '-' then (true, text.tail)
  else if text.head? = some '+' then (false, text.tail)
  else (false, text)

def hexRun (text : List Char) : List ℕ := (text.takeWhile fun c => (hexDigit c).isSome).filterMap hexDigit

/-- The digits in front of a text. The prefix 0x counts as a zero. -/
def hexDigits (text : List Char) : List ℕ :=
  if text.take 2 = ['0', 'x'] ∨ text.take 2 = ['0', 'X'] then 0 :: hexRun (text.drop 2) else hexRun text

/-- `sscanf` with `%x`: blanks, a sign, digits. The value goes through an unsigned long. -/
def scanHex (text : List Char) : Option ℕ :=
  let (negative, rest) := takeSign (text.dropWhile isSpaceChar)
  let digits := hexDigits rest
  if digits = [] then none
  else
    let value := digits.foldl (fun n d => 16 * n + d) 0
    let long := if value < 2 ^ 64 then (if negative then 2 ^ 64 - value else value) else 2 ^ 64 - 1
    some (long % 2 ^ 32)

end Hex

section Handlers

/-- The states of the lid that an event can tell. -/
inductive LidStatus
  | opened
  | closed
  | unknown
  deriving DecidableEq, Repr

/-- `enum BCL_CMD`. -/
inductive BclCmd
  | up
  | down
  | cycle
  deriving DecidableEq, Repr

/-- The handlers, with their arguments. -/
inductive AcpiCall
  | acAdapter (data : ℕ)
  | lid (status : LidStatus)
  | powerButton
  | sleepButton
  | suspendButton
  | video
  | bcl (cmd : BclCmd)
  | tabletMode (data : ℕ)
  deriving DecidableEq, Repr

/-- `ACPI_AC_NOTIFY_STATUS`. -/
def acNotifyStatus : ℕ := 0x80

/-- An event of the AC adapter: its type and its data have to be numbers. -/
def acEvent (type data : Option (List Char)) : List AcpiCall :=
  match type, data with
  | some type, some data =>
    match scanHex type, scanHex data with
    | some type, some data => if type = acNotifyStatus then [.acAdapter data] else []
    | _, _ => []
  | _, _ => []

/-- The state that the third token of a lid event names. -/
def lidStatus (token : Option (List Char)) : LidStatus :=
  if token = some "open".toList then .opened
  else if token = some "close".toList then .closed
  else .unknown

def buttonEvent (subclass token : Option (List Char)) : List AcpiCall :=
  match subclass with
  | none => []
  | some subclass =>
    if subclass = "lid".toList then [.lid (lidStatus token)]
    else if subclass = "power".toList then [.powerButton]
    else if subclass = "sleep".toList then [.sleepButton]
    else if subclass = "suspend".toList then [.suspendButton]
    else []

def videoEvent (subclass data : Option (List Char)) : List AcpiCall :=
  match subclass with
  | none => [.video]
  | some subclass =>
    if subclass = "brightnessup".toList then [.bcl .up]
    else if subclass = "brightnessdown".toList then [.bcl .down]
    else if subclass = "brightnesscycle".toList then [.bcl .cycle]
    else if subclass = "tabletmode".toList then ((data.bind scanHex).map AcpiCall.tabletMode).toList
    else []

/-- The event by its class, its subclass and the tokens that are looked at. Events of batteries are left to
polling. -/
def deviceEvent (cls : List Char) (subclass third fourth : Option (List Char)) : List AcpiCall :=
  if cls = "battery".toList then []
  else if cls = "ac_adapter".toList then acEvent third fourth
  else if cls = "button".toList then buttonEvent subclass third
  else if cls = "video".toList then videoEvent subclass fourth
  else []

/-- What is done with the tokens of a message. -/
def handleTokens (tokens : ℕ → Option (List Char)) : List AcpiCall :=
  match tokens 0 with
  | none => []
  | some token =>
    let (cls, last) := strsplit (some token) '/' none
    deviceEvent (cls.getD []) (strsplit none '/' last).1 (tokens 2) (tokens 3)

/-- `process_acpi_message`. -/
def processAcpiMessage (message : List Char) : List AcpiCall :=
  let buffer := message.takeWhile fun c => c ≠ '\x00'
  handleTokens fun i => (tokenize buffer)[i]?.join

/-- `acpi_events_read`, with what one `recv` after the other returns. -/
def acpiEventsRead (chunks : List (List Char)) : List AcpiCall := chunks.flatMap processAcpiMessage

end Handlers

section Split
variable {fields : List (List Char)} {f : List Char} {delim : Char}

/-- What is left of a string when these fields are. -/
def joined (delim : Char) : List (List Char) → Option (List Char)
  | [] => none
  | fields => some ([delim].intercalate fields)

lemma intercalate_cons_cons (f g : List Char) (fields : List (List Char)) :
    [delim].intercalate (f :: g :: fields) = f ++ delim :: [delim].intercalate (g :: fields) := by
  simp [List.intercalate]

/-- A token ends at the first delimiter. -/
lemma strsplit_delim (h : delim ∉ f) (rest : List Char) :
    strsplit none delim (some (f ++ delim :: rest)) = (some f, some rest) := by
  have hall : ∀ c ∈ f, decide (c ≠ delim) = true := fun _ hc => decide_eq_true fun he => h (he ▸ hc)
  simp only [strsplit, Option.none_or]
  rw [List.takeWhile_append_of_pos hall, List.dropWhile_append_of_pos hall]
  simp

/-- The last token ends with the string. -/
lemma strsplit_last (h : delim ∉ f) : strsplit none delim (some f) = (some f, none) := by
  have hall : ∀ c ∈ f, decide (c ≠ delim) = true := fun _ hc => decide_eq_true fun he => h (he ▸ hc)
  simp only [strsplit, Option.none_or, if_neg h]
  rw [List.takeWhile_eq_self_iff.mpr hall]

/-- One field is taken off. -/
lemma strsplit_joined (h : ∀ f ∈ fields, delim ∉ f) :
    strsplit none delim (joined delim fields) = (fields.head?, joined delim fields.tail) := by
  match fields with
  | [] => rfl
  | [f] =>
    rw [joined, List.intercalate_singleton, strsplit_last (h f List.mem_cons_self)]
    · rfl
    · simp
  | f :: g :: fields =>
    rw [joined, intercalate_cons_cons, strsplit_delim (h f List.mem_cons_self)]
    · simp [joined]
    · simp

lemma strsplit_some (str : List Char) (last : Option (List Char)) :
    strsplit (some str) delim last = strsplit none delim (some str) := rfl

/-- The slots are filled with the fields. -/
lemma tokenLoop_joined (h : ∀ f ∈ fields, ' ' ∉ f) {n i : ℕ} (hi : i < n) :
    (tokenLoop n fields.head? (joined ' ' fields.tail))[i]?.join = fields[i]? := by
  induction n generalizing fields i with
  | zero => omega
  | succ n ih =>
    have htail : ∀ f ∈ fields.tail, ' ' ∉ f := fun f hf => h f (List.mem_of_mem_tail hf)
    rw [tokenLoop, strsplit_joined htail]
    cases i with
    | zero => cases fields <;> rfl
    | succ i =>
      rw [List.getElem?_cons_succ, ih htail (by omega)]
      cases fields <;> rfl

lemma tokenize_intercalate (hne : fields ≠ []) (h : ∀ f ∈ fields, ' ' ∉ f) {i : ℕ} (hi : i < 16) :
    (tokenize ([' '].intercalate fields))[i]?.join = fields[i]? := by
  have hjoined : some ([' '].intercalate fields) = joined ' ' fields := by
    obtain ⟨f,fs,rfl⟩ := List.exists_cons_of_ne_nil hne
    rfl
  rw [tokenize, strsplit_some, hjoined, strsplit_joined h]
  exact tokenLoop_joined h hi

end Split

section Newline
variable {text : List Char}

lemma hexRun_newline (text rest : List Char) : hexRun (text ++ '\n' :: rest) = hexRun text := by
  unfold hexRun
  congr 1
  induction text with
  | nil => rfl
  | cons c text ih => rw [List.cons_append, List.takeWhile_cons, List.takeWhile_cons, ih]

lemma hexDigits_newline (text rest : List Char) : hexDigits (text ++ '\n' :: rest) = hexDigits text := by
  match text with
  | [] => rfl
  | [c] =>
    have hshort : ∀ d, d ≠ '\n' → ¬ [c, '\n'] = ['0', d] := by
      rintro d hd he
      exact hd (List.cons.inj (List.cons.inj he).2).1.symm
    rw [hexDigits, hexDigits, if_neg, if_neg]
    · exact hexRun_newline [c] rest
    · simp
    · exact fun h => h.elim (hshort _ (by decide)) (hshort _ (by decide))
  | c :: d :: text => simp only [hexDigits, List.cons_append, List.take_succ_cons, List.take_zero,
      List.drop_succ_cons, List.drop_zero, hexRun_newline, ← hexRun_newline (c :: d :: text) rest]

lemma takeSign_newline (text rest : List Char) : takeSign (text ++ '\n' :: rest) =
    ((takeSign text).1, (takeSign text).2 ++ '\n' :: rest) := by
  match text with
  | [] => rfl
  | c :: text =>
    by_cases hminus : c = '-'
    · simp [takeSign, hminus]
    · by_cases hplus : c = '+'
      · simp [takeSign, hplus]
      · simp [takeSign, hminus, hplus]

/-- A number ends at a newline, whatever is behind it. -/
lemma scanHex_append_newline (h : ∃ c ∈ text, isSpaceChar c = false) (rest : List Char) :
    scanHex (text ++ '\n' :: rest) = scanHex text := by
  have hne : (text.dropWhile isSpaceChar).isEmpty = false := by
    rw [Bool.eq_false_iff, ne_eq, List.isEmpty_iff, List.dropWhile_eq_nil_iff]
    obtain ⟨c,hc,hprint⟩ := h
    exact fun hall => Bool.false_ne_true (hprint.symm.trans (hall c hc))
  unfold scanHex
  rw [List.dropWhile_append, hne]
  simp only [Bool.false_eq_true, if_false, takeSign_newline, hexDigits_newline]

lemma scanHex_newline (text : List Char) : scanHex (text ++ ['\n']) = scanHex text := by
  by_cases hall : ∀ c ∈ text, isSpaceChar c = true
  · have hnil : text.dropWhile isSpaceChar = [] := List.dropWhile_eq_nil_iff.mpr hall
    unfold scanHex
    rw [List.dropWhile_append, hnil]
    rfl
  · obtain ⟨c,hc,hprint⟩ := not_forall₂.mp hall
    exact scanHex_append_newline ⟨c,hc,Bool.eq_false_iff.mpr hprint⟩ []

end Newline

section Classes
variable {f a b : List Char}

/-- The class in a token, up to the first slash. -/
def classOf (token : List Char) : List Char := token.takeWhile fun c => c ≠ '/'

/-- The subclass, up to the second slash. -/
def subclassOf (token : List Char) : Option (List Char) :=
  if '/' ∈ token then some (classOf (token.dropWhile fun c => c ≠ '/').tail) else none

lemma handleTokens_eq {tokens : ℕ → Option (List Char)} (h : tokens 0 = some f) :
    handleTokens tokens = deviceEvent (classOf f) (subclassOf f) (tokens 2) (tokens 3) := by
  unfold handleTokens subclassOf
  simp only [h, strsplit, Option.some_or, Option.none_or]
  split_ifs
  · rfl
  · rfl

/-- Only three tokens are looked at. -/
lemma handleTokens_congr {tokens tokens' : ℕ → Option (List Char)} (h₀ : tokens 0 = tokens' 0)
    (h₂ : tokens 2 = tokens' 2) (h₃ : tokens 3 = tokens' 3) : handleTokens tokens = handleTokens tokens' := by
  unfold handleTokens
  rw [h₀, h₂, h₃]

lemma classOf_of_notMem (h : '/' ∉ f) : classOf f = f := by
  rw [classOf, List.takeWhile_eq_self_iff]
  intro c hc
  simpa using fun he : c = '/' => h (he ▸ hc)

lemma subclassOf_of_notMem (h : '/' ∉ f) : subclassOf f = none := if_neg h

lemma classOf_append (h : '/' ∉ a) (b : List Char) : classOf (a ++ '/' :: b) = a := by
  have hpos : ∀ c ∈ a, decide (c ≠ '/') = true := by
    intro c hc
    simpa using fun he : c = '/' => h (he ▸ hc)
  rw [classOf, List.takeWhile_append_of_pos hpos]
  simp

lemma subclassOf_append (h : '/' ∉ a) (b : List Char) : subclassOf (a ++ '/' :: b) = some (classOf b) := by
  have hpos : ∀ c ∈ a, decide (c ≠ '/') = true := by
    intro c hc
    simpa using fun he : c = '/' => h (he ▸ hc)
  rw [subclassOf, if_pos (by simp), List.dropWhile_append_of_pos hpos]
  simp

/-- A token has no slash, one, or more than one. -/
lemma slash_cases (f : List Char) : '/' ∉ f ∨ (∃ a b, f = a ++ '/' :: b ∧ '/' ∉ a ∧ '/' ∉ b) ∨
    ∃ a b rest, f = a ++ '/' :: (b ++ '/' :: rest) ∧ '/' ∉ a ∧ '/' ∉ b := by
  by_cases hf : '/' ∈ f
  · obtain ⟨a,r,rfl,ha⟩ := List.eq_append_cons_of_mem hf
    by_cases hr : '/' ∈ r
    · obtain ⟨b,rest,rfl,hb⟩ := List.eq_append_cons_of_mem hr
      exact .inr (.inr ⟨a,b,rest,rfl,ha,hb⟩)
    · exact .inr (.inl ⟨a,r,rfl,ha,hr⟩)
  · exact .inl hf

end Classes

section Events
variable {fields : List (List Char)}

/-- An event of acpid: fields without blanks. -/
structure IsEvent (fields : List (List Char)) : Prop where
  nonempty : fields ≠ []
  plain : ∀ f ∈ fields, ' ' ∉ f ∧ '\n' ∉ f ∧ '\x00' ∉ f

/-- The line acpid writes for an event. -/
def eventLine (fields : List (List Char)) : List Char := [' '].intercalate fields ++ ['\n']

/-- The handlers of an event. -/
def eventCalls (fields : List (List Char)) : List AcpiCall := handleTokens fun i => fields[i]?

/-- The fields of a line, the last of them with the newline. -/
def markedFields : List (List Char) → List (List Char)
  | [] => []
  | [f] => [f ++ ['\n']]
  | f :: g :: fields => f :: markedFields (g :: fields)

lemma markedFields_ne_nil (h : fields ≠ []) : markedFields fields ≠ [] := by
  match fields with
  | [f] => simp [markedFields]
  | f :: g :: fields => simp [markedFields]

lemma eventLine_eq (h : fields ≠ []) : eventLine fields = [' '].intercalate (markedFields fields) := by
  induction fields with
  | nil => exact absurd rfl h
  | cons f fields ih =>
    cases fields with
    | nil => simp [eventLine, markedFields]
    | cons g fields =>
      have hrest := ih (by simp)
      obtain ⟨m,ms,hms⟩ := List.exists_cons_of_ne_nil (@markedFields_ne_nil (g :: fields) (by simp))
      rw [eventLine] at hrest
      rw [markedFields, eventLine, intercalate_cons_cons, List.append_assoc, List.cons_append, hrest, hms,
        intercalate_cons_cons]

lemma blank_notMem_markedFields (h : ∀ f ∈ fields, ' ' ∉ f) : ∀ f ∈ markedFields fields, ' ' ∉ f := by
  induction fields with
  | nil => simp [markedFields]
  | cons f fields ih =>
    obtain ⟨hf,hfields⟩ := List.forall_mem_cons.mp h
    cases fields with
    | nil => simpa [markedFields] using hf
    | cons g fields => exact List.forall_mem_cons.mpr ⟨hf,ih hfields⟩

lemma nul_notMem_eventLine (h : IsEvent fields) : '\x00' ∉ eventLine fields := by
  intro hc
  rcases List.mem_append.mp hc with hc | hc
  · exact notMem_intercalate (show '\x00' ∉ [' '] by decide) (fun f hf => (h.plain f hf).2.2) hc
  · exact absurd (List.mem_singleton.mp hc) (by decide)

/-- A message without a null byte is tokenized as it is. -/
lemma processAcpiMessage_tokenize {message : List Char} (h : '\x00' ∉ message) :
    processAcpiMessage message = handleTokens fun i => (tokenize message)[i]?.join := by
  have hall : message.takeWhile (fun c => c ≠ '\x00') = message := by
    rw [List.takeWhile_eq_self_iff]
    exact fun c hc => decide_eq_true fun he => h (he ▸ hc)
  unfold processAcpiMessage
  rw [hall]

/-- A read that holds one line is handled by its fields, the last of which has the newline. -/
lemma processAcpiMessage_eventLine (h : IsEvent fields) :
    processAcpiMessage (eventLine fields) = handleTokens fun i => (markedFields fields)[i]? := by
  have htokens : ∀ i < 16, (tokenize (eventLine fields))[i]?.join = (markedFields fields)[i]? := by
    intro i hi
    rw [eventLine_eq h.nonempty]
    exact tokenize_intercalate (markedFields_ne_nil h.nonempty)
      (blank_notMem_markedFields fun f hf => (h.plain f hf).1) hi
  rw [processAcpiMessage_tokenize (nul_notMem_eventLine h)]
  exact handleTokens_congr (htokens 0 (by decide)) (htokens 2 (by decide)) (htokens 3 (by decide))

end Events

section Misread
variable {fields : List (List Char)} {f a b : List Char}

/-- The classes and subclasses that have a handler which looks at no other field. -/
def soloClasses : List (List Char × List Char) :=
  [("button".toList, "lid".toList), ("button".toList, "power".toList), ("button".toList, "sleep".toList),
    ("button".toList, "suspend".toList), ("video".toList, "brightnessup".toList),
    ("video".toList, "brightnessdown".toList), ("video".toList, "brightnesscycle".toList)]

/-- The events that are one field and have a handler. -/
def soloEvents : List (List Char) := "video".toList :: soloClasses.map fun p => p.1 ++ '/' :: p.2

/-- An event whose last field is not understood with a newline behind it: one that has a handler and is one
field, or one of the lid whose last field says whether it is open. -/
def Misread : List (List Char) → Prop
  | [f] => f ∈ soloEvents
  | [f, _, state] => (f = "button/lid".toList ∨ "button/lid/".toList <+: f) ∧
      (state = "open".toList ∨ state = "close".toList)
  | _ => False

lemma newline_ne (word : List Char) (h : '\n' ∉ word) (f : List Char) : f ++ ['\n'] ≠ word := by
  rintro rfl
  simp at h

/-- Neither a class nor a subclass ends in a newline. -/
lemma deviceEvent_class_newline (f : List Char) (subclass third fourth : Option (List Char)) :
    deviceEvent (f ++ ['\n']) subclass third fourth = [] := by
  rw [deviceEvent, if_neg (newline_ne _ (by decide) f), if_neg (newline_ne _ (by decide) f),
    if_neg (newline_ne _ (by decide) f), if_neg (newline_ne _ (by decide) f)]

lemma deviceEvent_subclass_newline (a b : List Char) : deviceEvent a (some (b ++ ['\n'])) none none = [] := by
  have hbutton : buttonEvent (some (b ++ ['\n'])) none = [] := by
    simp only [buttonEvent, if_neg (newline_ne "lid".toList (by decide) b),
      if_neg (newline_ne "power".toList (by decide) b),
      if_neg (newline_ne "sleep".toList (by decide) b),
      if_neg (newline_ne "suspend".toList (by decide) b)]
  have hvideo : videoEvent (some (b ++ ['\n'])) none = [] := by
    simp only [videoEvent, if_neg (newline_ne "brightnessup".toList (by decide) b),
      if_neg (newline_ne "brightnessdown".toList (by decide) b),
      if_neg (newline_ne "brightnesscycle".toList (by decide) b),
      if_neg (newline_ne "tabletmode".toList (by decide) b)]
  simp only [deviceEvent, hbutton, hvideo, acEvent, ite_self]

/-- Without other fields, these are the events that have a handler. -/
lemma deviceEvent_solo_iff : deviceEvent a (some b) none none ≠ [] ↔ (a, b) ∈ soloClasses := by
  have hbutton : buttonEvent (some b) none ≠ [] ↔ b = "lid".toList ∨ b = "power".toList ∨ b = "sleep".toList ∨
      b = "suspend".toList := by
    simp only [buttonEvent]
    split_ifs <;> simp_all
  have hvideo : videoEvent (some b) none ≠ [] ↔ b = "brightnessup".toList ∨ b = "brightnessdown".toList ∨
      b = "brightnesscycle".toList := by
    simp only [videoEvent]
    split_ifs <;> simp_all
  have hmem : (a, b) ∈ soloClasses ↔ (a = "button".toList ∧ (b = "lid".toList ∨ b = "power".toList ∨
      b = "sleep".toList ∨ b = "suspend".toList)) ∨ (a = "video".toList ∧ (b = "brightnessup".toList ∨
      b = "brightnessdown".toList ∨ b = "brightnesscycle".toList)) := by
    simp only [soloClasses, List.mem_cons, Prod.mk.injEq, List.not_mem_nil, or_false, and_or_left, or_assoc]
  rw [hmem, ← hbutton, ← hvideo]
  unfold deviceEvent
  split_ifs with hbattery hac hb hv
  · rw [hbattery]
    simp
  · rw [hac]
    simp [acEvent]
  · rw [hb]
    simp
  · rw [hv]
    simp
  · simp only [hb, hv, false_and, or_self, ne_eq, not_true_eq_false]

lemma slash_notMem_soloClasses (h : (a, b) ∈ soloClasses) : '/' ∉ a ∧ '/' ∉ b := by
  have hall : ∀ p ∈ soloClasses, '/' ∉ p.1 ∧ '/' ∉ p.2 := by decide
  exact hall (a, b) h

lemma mem_soloEvents_iff (ha : '/' ∉ a) (hb : '/' ∉ b) : a ++ '/' :: b ∈ soloEvents ↔ (a, b) ∈ soloClasses := by
  constructor
  · intro h
    rcases List.mem_cons.mp h with he | h
    · have hvideo : '/' ∉ "video".toList := by decide
      rw [← he] at hvideo
      simp at hvideo
    · obtain ⟨⟨a',b'⟩,hp,he⟩ := List.mem_map.mp h
      obtain ⟨ha',hb'⟩ := slash_notMem_soloClasses hp
      have hclass := congrArg classOf he
      have hsub := congrArg subclassOf he
      rw [classOf_append ha', classOf_append ha] at hclass
      rw [subclassOf_append ha', subclassOf_append ha, classOf_of_notMem hb', classOf_of_notMem hb] at hsub
      rwa [← hclass, ← Option.some.inj hsub]
  · exact fun h => List.mem_cons_of_mem _ (List.mem_map.mpr ⟨(a, b),h,rfl⟩)

/-- One field: what has a handler is lost. -/
lemma solo_cases (f : List Char) :
    (f ∉ soloEvents ∧ deviceEvent (classOf (f ++ ['\n'])) (subclassOf (f ++ ['\n'])) none none =
        deviceEvent (classOf f) (subclassOf f) none none) ∨
    f ∈ soloEvents ∧ deviceEvent (classOf (f ++ ['\n'])) (subclassOf (f ++ ['\n'])) none none = [] ∧
      deviceEvent (classOf f) (subclassOf f) none none ≠ [] := by
  rcases slash_cases f with hf | ⟨a,b,rfl,ha,hb⟩ | ⟨a,b,rest,rfl,ha,hb⟩
  · have hf' : '/' ∉ f ++ ['\n'] := by simpa using hf
    rw [classOf_of_notMem hf', classOf_of_notMem hf, subclassOf_of_notMem hf, deviceEvent_class_newline]
    by_cases hvideo : f = "video".toList
    · rw [hvideo]
      exact .inr ⟨List.mem_cons_self,rfl,by decide⟩
    · refine .inl ⟨?_,?_⟩
      · intro hmem
        obtain ⟨p,-,he⟩ := List.mem_map.mp ((List.mem_cons.mp hmem).resolve_left hvideo)
        rw [← he] at hf
        simp at hf
      · unfold deviceEvent
        split_ifs
        · rfl
        · rfl
        · rfl
        · rfl
  · have hb' : '/' ∉ b ++ ['\n'] := by simpa using hb
    have hsplit : a ++ '/' :: b ++ ['\n'] = a ++ '/' :: (b ++ ['\n']) := by simp
    rw [hsplit, classOf_append ha, classOf_append ha, subclassOf_append ha, subclassOf_append ha,
      classOf_of_notMem hb', classOf_of_notMem hb, deviceEvent_subclass_newline, mem_soloEvents_iff ha hb,
      ← deviceEvent_solo_iff]
    by_cases hnil : deviceEvent a (some b) none none = []
    · exact .inl ⟨fun h => h hnil,hnil.symm⟩
    · exact .inr ⟨hnil,rfl,hnil⟩
  · have hsplit : a ++ '/' :: (b ++ '/' :: rest) ++ ['\n'] = a ++ '/' :: (b ++ '/' :: (rest ++ ['\n'])) := by simp
    rw [hsplit, classOf_append ha, classOf_append ha, subclassOf_append ha, subclassOf_append ha,
      classOf_append hb, classOf_append hb]
    refine .inl ⟨fun hmem => ?_,rfl⟩
    have hcount : ∀ g ∈ soloEvents, g.count '/' ≤ 1 := by decide
    have htwo := hcount _ hmem
    simp only [List.count_append, List.count_cons_self] at htwo
    omega

lemma isLid_iff : (f = "button/lid".toList ∨ "button/lid/".toList <+: f) ↔
    classOf f = "button".toList ∧ subclassOf f = some "lid".toList := by
  have hbutton : '/' ∉ "button".toList := by decide
  have hlid : '/' ∉ "lid".toList := by decide
  constructor
  · rintro (rfl | ⟨rest,rfl⟩)
    · exact ⟨by decide,by decide⟩
    · have hsplit : "button/lid/".toList ++ rest = "button".toList ++ '/' :: ("lid".toList ++ '/' :: rest) := by
        simp
      rw [hsplit, classOf_append hbutton, subclassOf_append hbutton, classOf_append hlid]
      exact ⟨rfl,rfl⟩
  · rintro ⟨hclass,hsub⟩
    rcases slash_cases f with hf | ⟨a,b,rfl,ha,hb⟩ | ⟨a,b,rest,rfl,ha,hb⟩
    · rw [subclassOf_of_notMem hf] at hsub
      cases hsub
    · rw [classOf_append ha] at hclass
      rw [subclassOf_append ha, classOf_of_notMem hb] at hsub
      rw [hclass, Option.some.inj hsub]
      exact .inl rfl
    · rw [classOf_append ha] at hclass
      rw [subclassOf_append ha, classOf_append hb] at hsub
      rw [hclass, Option.some.inj hsub]
      exact .inr ⟨rest,by simp⟩

/-- The third of three fields is looked at in events of the lid only. -/
lemma deviceEvent_three (cls : List Char) (subclass : Option (List Char)) (token : List Char) :
    deviceEvent cls subclass (some token) none =
      if cls = "button".toList ∧ subclass = some "lid".toList then [.lid (lidStatus (some token))]
      else deviceEvent cls subclass none none := by
  split_ifs with hlid
  · rw [hlid.1, hlid.2]
    rfl
  · by_cases hbutton : cls = "button".toList
    · have hsub : ∀ sub, subclass = some sub → sub ≠ "lid".toList := by
        rintro sub rfl he
        exact hlid ⟨hbutton,by rw [he]⟩
      have hsame : buttonEvent subclass (some token) = buttonEvent subclass none := by
        cases subclass with
        | none => rfl
        | some sub => simp only [buttonEvent, if_neg (hsub sub rfl)]
      simp only [deviceEvent, hsame, acEvent]
    · simp only [deviceEvent, if_neg hbutton, acEvent]

lemma lidStatus_newline (token : List Char) : lidStatus (some (token ++ ['\n'])) = .unknown := by
  rw [lidStatus, if_neg, if_neg]
  · exact fun h => newline_ne _ (by decide) token (Option.some.inj h)
  · exact fun h => newline_ne _ (by decide) token (Option.some.inj h)

/-- Three fields: the state of the lid is not understood. -/
lemma lid_cases (f token : List Char) :
    (¬ Misread [f, b, token] ∧ deviceEvent (classOf f) (subclassOf f) (some (token ++ ['\n'])) none =
        deviceEvent (classOf f) (subclassOf f) (some token) none) ∨
    Misread [f, b, token] ∧ deviceEvent (classOf f) (subclassOf f) (some (token ++ ['\n'])) none = [.lid .unknown] ∧
      ∃ status, status ≠ .unknown ∧
        deviceEvent (classOf f) (subclassOf f) (some token) none = [.lid status] := by
  rw [deviceEvent_three, deviceEvent_three, lidStatus_newline, Misread, isLid_iff]
  by_cases hlid : classOf f = "button".toList ∧ subclassOf f = some "lid".toList
  · rw [if_pos hlid, if_pos hlid]
    by_cases hopen : token = "open".toList
    · refine .inr ⟨⟨hlid,.inl hopen⟩,rfl,.opened,by decide,?_⟩
      rw [hopen]
      rfl
    · by_cases hclose : token = "close".toList
      · refine .inr ⟨⟨hlid,.inr hclose⟩,rfl,.closed,by decide,?_⟩
        rw [hclose]
        rfl
      · refine .inl ⟨fun h => h.2.elim hopen hclose,?_⟩
        rw [lidStatus, if_neg fun h => hopen (Option.some.inj h), if_neg fun h => hclose (Option.some.inj h)]
  · rw [if_neg hlid, if_neg hlid]
    exact .inl ⟨fun h => hlid h.1,rfl⟩

/-- The fourth token counts as a number. -/
lemma deviceEvent_fourth (cls : List Char) (subclass third : Option (List Char)) {data data' : List Char}
    (h : scanHex data = scanHex data') :
    deviceEvent cls subclass third (some data) = deviceEvent cls subclass third (some data') := by
  have hac : acEvent third (some data) = acEvent third (some data') := by
    cases third with
    | none => rfl
    | some type => simp only [acEvent, h]
  simp only [deviceEvent, hac, videoEvent, Option.bind_some, h]

/-- A line in a read of its own is handled as the event, unless the event is one that is misread; then its
call is lost, or made with another argument. -/
lemma eventLine_cases (h : IsEvent fields) :
    (¬ Misread fields ∧ processAcpiMessage (eventLine fields) = eventCalls fields) ∨
    Misread fields ∧ processAcpiMessage (eventLine fields) ≠ eventCalls fields ∧
      (processAcpiMessage (eventLine fields)).length ≤ (eventCalls fields).length := by
  rw [processAcpiMessage_eventLine h, eventCalls]
  match fields, h.nonempty with
  | [f], _ =>
    rw [handleTokens_eq (f := f ++ ['\n']) rfl, handleTokens_eq (f := f) rfl]
    refine (solo_cases f).imp id ?_
    rintro ⟨hsolo,hlost,hcall⟩
    refine ⟨hsolo,?_,?_⟩
    · exact fun he => hcall (he.symm.trans hlost)
    · exact (congrArg List.length hlost).le.trans (Nat.zero_le _)
  | [f, g], _ => exact .inl ⟨id,handleTokens_congr rfl rfl rfl⟩
  | [f, b, token], _ =>
    rw [handleTokens_eq (f := f) rfl, handleTokens_eq (f := f) rfl]
    refine (lid_cases f token).imp id ?_
    rintro ⟨hmisread,hunknown,status,hstatus,hcall⟩
    refine ⟨hmisread,?_,?_⟩
    · intro he
      have hsame := hunknown.symm.trans (he.trans hcall)
      rw [List.singleton_inj, AcpiCall.lid.injEq] at hsame
      exact hstatus hsame.symm
    · exact ((congrArg List.length hunknown).trans (congrArg List.length hcall).symm).le
  | [f, g, type, data], _ =>
    refine .inl ⟨id,?_⟩
    rw [handleTokens_eq (f := f) rfl, handleTokens_eq (f := f) rfl]
    exact deviceEvent_fourth _ _ _ (scanHex_newline data)
  | f :: g :: type :: data :: e :: fields, _ => exact .inl ⟨id,handleTokens_congr rfl rfl rfl⟩

variable {events : List (List (List Char))} {calls : List (List (List Char))}

/-- It does not matter in which call a message is read. -/
lemma flatMap_acpiEventsRead (calls : List (List (List Char))) :
    calls.flatMap acpiEventsRead = calls.flatten.flatMap processAcpiMessage := by
  induction calls with
  | nil => rfl
  | cons chunks calls ih => rw [List.flatMap_cons, ih, List.flatten_cons, List.flatMap_append, acpiEventsRead]

/-- Where each read returns one line, the handlers that are called in all calls of `acpi_events_read` are
those of the events, in order and once each, if and only if no event is misread. -/
theorem acpi_events_handled_iff (hevents : ∀ e ∈ events, IsEvent e)
    (haligned : calls.flatten = events.map eventLine) :
    calls.flatMap acpiEventsRead = events.flatMap eventCalls ↔ ∀ e ∈ events, ¬ Misread e := by
  have hreads : calls.flatMap acpiEventsRead = events.flatMap fun e => processAcpiMessage (eventLine e) := by
    rw [flatMap_acpiEventsRead, haligned, List.flatMap_map]
  rw [hreads, flatMap_eq_flatMap_iff]
  · apply forall₂_congr
    intro e he
    rcases eventLine_cases (hevents e he) with ⟨hright,heq⟩ | ⟨hmisread,hne,-⟩
    · exact ⟨fun _ => hright,fun _ => heq⟩
    · exact ⟨fun heq => absurd heq hne,fun hright => absurd hmisread hright⟩
  · intro e he
    rcases eventLine_cases (hevents e he) with ⟨-,heq⟩ | ⟨-,-,hle⟩
    · rw [heq]
    · exact hle

end Misread

section Joined
variable {fields : List (List Char)} {read : List (List (List Char))}

/-- An event with the four fields of a device, the fourth not blank where it is the last. -/
def Full : List (List Char) → Prop
  | _ :: _ :: _ :: data :: more => more = [] → ∃ c ∈ data, isSpaceChar c = false
  | _ => False

lemma eventLine_cons (f : List Char) {fields : List (List Char)} (h : fields ≠ []) :
    eventLine (f :: fields) = f ++ ' ' :: eventLine fields := by
  obtain ⟨g,fs,rfl⟩ := List.exists_cons_of_ne_nil h
  rw [eventLine, intercalate_cons_cons, List.append_assoc, List.cons_append, ← eventLine]

/-- The first tokens are the fields that end with a blank. -/
lemma handleTokens_tokenize {f g type : List Char} (hf : ' ' ∉ f) (hg : ' ' ∉ g) (ht : ' ' ∉ type) (rest : List Char) :
    handleTokens (fun i => (tokenize (f ++ ' ' :: (g ++ ' ' :: (type ++ ' ' :: rest))))[i]?.join) =
      deviceEvent (classOf f) (subclassOf f) (some type) (some (rest.takeWhile fun c => c ≠ ' ')) := by
  rw [handleTokens_eq (f := f)]
  · congr 1
    · simp [tokenize, tokenLoop, strsplit_some, strsplit_delim hf, strsplit_delim hg, strsplit_delim ht]
    · simp only [tokenize, tokenLoop, strsplit_some, strsplit_delim hf, strsplit_delim hg, strsplit_delim ht,
        List.getElem?_cons_succ, List.getElem?_cons_zero, Option.join_some]
      rfl
  · simp [tokenize, tokenLoop, strsplit_some, strsplit_delim hf]

lemma not_misread_of_full (h : Full fields) : ¬ Misread fields := by
  match fields with
  | _ :: _ :: _ :: _ :: _ => exact id

/-- What is read behind the line of a full event does not change its handler. -/
lemma processAcpiMessage_full (h : IsEvent fields) (hfull : Full fields) {rest : List Char} (hrest : '\x00' ∉ rest) :
    processAcpiMessage (eventLine fields ++ rest) = eventCalls fields := by
  match fields, hfull with
  | f :: g :: type :: data :: more, hfull =>
    have hplain := fun field hfield => (h.plain field hfield).1
    simp only [List.forall_mem_cons] at hplain
    obtain ⟨hf,hg,ht,hd,-⟩ := hplain
    have hline : eventLine (f :: g :: type :: data :: more) ++ rest =
        f ++ ' ' :: (g ++ ' ' :: (type ++ ' ' :: (eventLine (data :: more) ++ rest))) := by
      simp [eventLine_cons]
    rw [processAcpiMessage_tokenize (by simp [nul_notMem_eventLine h, hrest]), hline, handleTokens_tokenize hf hg ht,
      eventCalls, handleTokens_eq (f := f) rfl]
    refine deviceEvent_fourth _ _ _ ?_
    have hall : ∀ c ∈ data, decide (c ≠ ' ') = true := fun _ hc => decide_eq_true fun he => hd (he ▸ hc)
    cases more with
    | nil =>
      rw [eventLine, List.intercalate_singleton, List.append_assoc, List.takeWhile_append_of_pos hall]
      exact scanHex_append_newline (hfull rfl) _
    | cons m ms =>
      rw [eventLine_cons data (List.cons_ne_nil m ms), List.append_assoc, List.takeWhile_append_of_pos hall]
      simp

/-- A read of lines that begins with a full event: the handlers of the others are not called. -/
lemma read_cases (hevents : ∀ e ∈ read, IsEvent e) (hfull : ∀ e ∈ read.head?, read.tail = [] ∨ Full e) :
    (processAcpiMessage (read.flatMap eventLine)).length ≤ (read.flatMap eventCalls).length ∧
    (processAcpiMessage (read.flatMap eventLine) = read.flatMap eventCalls ↔
      (∀ e ∈ read.head?, ¬ Misread e) ∧ ∀ e ∈ read.tail, eventCalls e = []) := by
  match read with
  | [] => exact ⟨Nat.zero_le _,iff_of_true rfl (by simp)⟩
  | [e] =>
    simp only [List.flatMap_cons, List.flatMap_nil, List.append_nil, List.head?_cons, Option.mem_some_iff,
      forall_eq', List.tail_cons, List.not_mem_nil, false_implies, implies_true, and_true]
    rcases eventLine_cases (hevents e List.mem_cons_self) with ⟨hright,heq⟩ | ⟨hmisread,hne,hle⟩
    · exact ⟨(congrArg List.length heq).le,iff_of_true heq hright⟩
    · exact ⟨hle,iff_of_false hne fun h => h hmisread⟩
  | e :: e' :: rest =>
    obtain ⟨he,hrest⟩ := List.forall_mem_cons.mp hevents
    have hfirst : Full e := (hfull e rfl).resolve_left (List.cons_ne_nil e' rest)
    have hnul : '\x00' ∉ (e' :: rest).flatMap eventLine := by
      intro hmem
      obtain ⟨e,he,hc⟩ := List.mem_flatMap.mp hmem
      exact nul_notMem_eventLine (hrest e he) hc
    rw [List.flatMap_cons, processAcpiMessage_full he hfirst hnul, List.flatMap_cons, List.length_append]
    refine ⟨Nat.le_add_right _ _,?_⟩
    rw [List.self_eq_append_right, List.flatMap_eq_nil_iff]
    refine (and_iff_right fun first hmem => ?_).symm
    obtain rfl : e = first := Option.mem_some_iff.mp hmem
    exact not_misread_of_full hfirst

/-- Where the reads return whole lines, and one that joins lines begins with a full event, the handlers that are called
are those of the events exactly if no event in front is misread and none behind it has a handler. -/
theorem joined_events_handled_iff {reads : List (List (List (List Char)))} {calls : List (List (List Char))}
    (hevents : ∀ read ∈ reads, ∀ e ∈ read, IsEvent e)
    (hfull : ∀ read ∈ reads, ∀ e ∈ read.head?, read.tail = [] ∨ Full e)
    (hlines : calls.flatten = reads.map fun read => read.flatMap eventLine) :
    calls.flatMap acpiEventsRead = reads.flatMap (fun read => read.flatMap eventCalls) ↔
      ∀ read ∈ reads, (∀ e ∈ read.head?, ¬ Misread e) ∧ ∀ e ∈ read.tail, eventCalls e = [] := by
  have hreads : calls.flatMap acpiEventsRead =
      reads.flatMap fun read => processAcpiMessage (read.flatMap eventLine) := by
    rw [flatMap_acpiEventsRead, hlines, List.flatMap_map]
  rw [hreads, flatMap_eq_flatMap_iff fun read hread => (read_cases (hevents read hread) (hfull read hread)).1]
  exact forall₂_congr fun read hread => (read_cases (hevents read hread) (hfull read hread)).2

end Joined

/-- The power button and the AC adapter. -/
def powerEvent : List (List Char) :=
  ["button/power".toList, "PBTN".toList, "00000080".toList, "00000001".toList]

def acOnlineEvent : List (List Char) :=
  ["ac_adapter".toList, "ACPI0003:00".toList, "00000080".toList, "00000001".toList]

lemma isEvent_powerEvent : IsEvent powerEvent := ⟨by simp [powerEvent],by simp [powerEvent]⟩

lemma isEvent_acOnlineEvent : IsEvent acOnlineEvent := ⟨by simp [acOnlineEvent],by simp [acOnlineEvent]⟩

/-- Both are handled when they are read one by one. -/
theorem acpi_events_handled_power : [[eventLine powerEvent], [eventLine acOnlineEvent]].flatMap acpiEventsRead =
    [.powerButton, .acAdapter 1] := by
  have hiff : [[eventLine powerEvent], [eventLine acOnlineEvent]].flatMap acpiEventsRead =
      [powerEvent, acOnlineEvent].flatMap eventCalls ↔ ∀ e ∈ [powerEvent, acOnlineEvent], ¬ Misread e :=
    acpi_events_handled_iff (by simp [isEvent_powerEvent, isEvent_acOnlineEvent]) rfl
  have hcalls : [powerEvent, acOnlineEvent].flatMap eventCalls = [.powerButton, .acAdapter 1] := by decide
  rw [← hcalls]
  exact hiff.mpr (by simp [powerEvent, acOnlineEvent, Misread])

/-- The lid as acpid tells of it. -/
def lidCloseEvent : List (List Char) := ["button/lid".toList, "LID".toList, "close".toList]

lemma isEvent_lidCloseEvent : IsEvent lidCloseEvent := ⟨by simp [lidCloseEvent],by simp [lidCloseEvent]⟩

/-- A lid that is closed is handled as one whose state is not known, and of two events in one read the second
is not handled at all. -/
theorem acpi_events_misread : IsEvent lidCloseEvent ∧ eventCalls lidCloseEvent = [.lid .closed] ∧
    acpiEventsRead [eventLine lidCloseEvent] = [.lid .unknown] ∧
    [powerEvent, acOnlineEvent].flatMap eventCalls = [.powerButton, .acAdapter 1] ∧
    acpiEventsRead [eventLine powerEvent ++ eventLine acOnlineEvent] = [.powerButton] :=
  ⟨isEvent_lidCloseEvent,by decide,by decide,by decide,by decide⟩

end Xctools.Xcpmd
