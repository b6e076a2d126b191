import Mathlib.Data.Int.Notation
import Xctools.Broker.Filter
import Xctools.Broker.Websockets

/-! Websocket requests on their way to the bus: `rpc-json.c`, the introspection of `signature.c` and
`rpc-dbus.c`, and `make_dbus_call`. The client's JSON gives the names and the arguments, the
target's introspection gives the signature, and the two meet argument by argument. -/
namespace Xctools.Broker
open Machine

def dbusIntrospectMax : ℕ := 0xFFFF
def xmlSignatureMax : ℕ := 16
def dbusArgs : ℕ := 16

/-- A JSON value. A double is known by its text. -/
inductive Json
  | null
  | bool (value : Bool)
  | int (value : ℤ)
  | double (text : String)
  | string (value : String)
  | array (items : List Json)
  | object (fields : List (String × Json))

/-- `json_object_object_get_ex`. -/
def Json.getEx : Json → String → Option Json
  | .object fields, key => fields.lookup key
  | _, _ => none

/-- `json_type_null`. -/
def Json.isNull : Json → Bool
  | .null => true
  | _ => false

/-- `json_dbus_types`, with the NUL of the types it does not list. -/
def jsonDbusTypes : Json → Char
  | .bool _ => 'b'
  | .double _ => 'd'
  | .int _ => 'i'
  | .string _ => 's'
  | _ => '\x00'

/-- An XML element with its attributes and its child elements. -/
inductive XmlNode
  | element (props : List (String × String)) (children : List XmlNode)

/-- `xmlGetProp`. -/
def XmlNode.getProp : XmlNode → String → Option String
  | .element props _, name => props.lookup name

def XmlNode.children : XmlNode → List XmlNode
  | .element _ children => children

/-- json-c: the integer it reads from the text of a double and from a string, whether a double is not zero, and
the double it makes of a value. -/
structure JsonC where
  doubleInt : String → ℤ
  stringInt : String → ℤ
  doubleTrue : String → Bool
  getDouble : Json → String

/-- The types of D-Bus values that the conversion knows. A dictionary is an array of entries. -/
inductive DbusType
  | string
  | objectPath
  | int32
  | uint32
  | int64
  | boolean
  | double
  | variant
  | array (element : DbusType)
  | dict (value : DbusType)
  deriving DecidableEq, Repr

/-- A D-Bus value. A double is known by its text, as in JSON. -/
inductive DbusValue
  | string (value : String)
  | objectPath (value : String)
  | int32 (value : BitVec 32)
  | uint32 (value : BitVec 32)
  | int64 (value : BitVec 64)
  | boolean (value : Bool)
  | double (text : String)
  | variant (value : DbusValue)
  | array (element : DbusType) (items : List DbusValue)
  | dict (value : DbusType) (entries : List (String × DbusValue))

def dbusIntroIface : String := "org.freedesktop.DBus.Introspectable"
def dbusIntroMeth : String := "Introspect"

/-- The libraries and the bus: `json_tokener_parse`, the text json-c prints for a value, `xmlParseDoc`, what libdbus
takes for the name of a bus, of an object, of an interface and of a member and for UTF-8, the string an `Introspect`
call on a destination and a path brings, and the reply to a call, if it brings one. -/
structure Bus where
  tokenerParse : String → Option Json
  jsonString : Json → String
  xmlParse : String → Option XmlNode
  isBusName : String → Bool
  isPath : String → Bool
  isInterface : String → Bool
  isMember : String → Bool
  isUtf8 : String → Bool
  introspectable : isInterface dbusIntroIface = true ∧ isMember dbusIntroMeth = true
  introspection : CStr → CStr → Option String
  reply : DbusMessage → List DbusValue → Option String

section Lookup
variable (bus : Bus)

/-- `json_object_get_string` of a value that is not JSON's null, as far as C reads it. -/
def Bus.getString : Json → String
  | .string s => String.ofList (s.toList.takeWhile (· ≠ '\x00'))
  | j => bus.jsonString j

/-- `get_json_str_obj`: `strdup` of the field's text. JSON's null has none. -/
def getJsonStrObj (jobj : Json) (field : String) : Outcome CStr :=
  match jobj.getEx field with
  | none => .ok .null
  | some .null => .error .null
  | some jfield => .ok (.live (bus.getString jfield))

/-- `find_xml_property` among the siblings of a node: the first child of the one with the wanted
name, with its siblings after it. -/
def findXmlProperty (target : String) : List XmlNode → List XmlNode
  | [] => []
  | node :: siblings =>
    if node.getProp "name" = some target then node.children else findXmlProperty target siblings

/-- The loop of `retrieve_xml_signature` over the `in` arguments. -/
def inLetters : List XmlNode → List Char
  | [] => []
  | node :: siblings =>
    if node.getProp "direction" = some "in" then
      match node.getProp "type" with
      | some type => type.toList.headD '\x00' :: inLetters siblings
      | none => inLetters siblings
    else []

/-- `retrieve_xml_signature`: the letters of a method, before they are written to the buffer. -/
def retrieveXmlSignature (xml interface member : String) : List Char :=
  match bus.xmlParse xml with
  | none => []
  | some root => inLetters (findXmlProperty member (findXmlProperty interface root.children))

/-- A signature in its buffer. -/
structure Signature where
  letters : List Char
  size : ℕ

/-- `*sigptr` after `k` steps. -/
def Signature.read (sig : Signature) (k : ℕ) : Outcome Char :=
  if k < sig.size then .ok (sig.letters[k]?.getD '\x00') else .error .bounds

/-- A name that libdbus checks before it goes on: one it does not take ends the process. -/
def checkName (valid : String → Bool) (name : CStr) : Outcome Unit := do
  if valid (← name.read) then return () else .error .exit

/-- A name that can also be missing. -/
def checkSet (valid : String → Bool) (name : CStr) : Outcome Unit :=
  if name.IsSet then checkName valid name else .ok ()

/-- `dbus_message_new_method_call` or, without a destination, `dbus_message_new_signal`, which needs an interface. -/
def Bus.newMessage (dmsg : DbusMessage) : Outcome Unit := do
  checkSet bus.isBusName dmsg.destination
  checkName bus.isPath dmsg.path
  (if dmsg.destination.IsSet then checkSet else checkName) bus.isInterface dmsg.interface
  checkName bus.isMember dmsg.member

/-- The call that asks for the introspection of a path. -/
def introspectMessage (destination path : CStr) : DbusMessage where
  destination := destination
  interface := .live dbusIntroIface
  path := path
  member := .live dbusIntroMeth

/-- `dbus_introspect`. The reply is copied to one fixed buffer and the letters to another. -/
def dbusIntrospect (destination path : CStr) (interface member : String) :
    Outcome (Option Signature) := do
  bus.newMessage (introspectMessage destination path)
  match bus.introspection destination path with
  | none => return none
  | some reply =>
    if dbusIntrospectMax ≤ reply.utf8ByteSize then .error .bounds
    else
      let letters := retrieveXmlSignature bus reply interface member
      if xmlSignatureMax ≤ letters.length then .error .bounds
      else return some ⟨letters, xmlSignatureMax⟩

/-- The names of a request. -/
structure Names where
  destination : CStr
  type : CStr
  interface : String
  path : String
  member : String

/-- The signature `parse_json_args` goes by. -/
def argSignature (names : Names) : Outcome (Option Signature) :=
  if ¬ names.destination.IsSet ∧ names.type.IsSet then .ok (some ⟨['u', 'u'], 3⟩)
  else dbusIntrospect bus names.destination (.live names.path) names.interface names.member

end Lookup

/-- What a slot of `args` points to. -/
inductive Slot
  | null
  | int (value : BitVec 32)
  | double (text : String)
  | string (value : String)
  deriving DecidableEq, Repr

/-- The nearest `int32`. -/
def saturate (v : ℤ) : BitVec 32 := BitVec.ofInt 32 (max (-2147483648) (min v 2147483647))

def ofBool (b : Bool) : BitVec 32 := if b then 1 else 0

section Slots
variable (js : JsonC) (bus : Bus)

/-- `json_object_get_int`. -/
def JsonC.getInt : Json → BitVec 32
  | .int v => saturate v
  | .bool b => ofBool b
  | .double t => saturate (js.doubleInt t)
  | .string s => saturate (js.stringInt s)
  | _ => 0

/-- `json_object_get_boolean`. -/
def JsonC.getBoolean : Json → Bool
  | .bool b => b
  | .int v => v ≠ 0
  | .double t => js.doubleTrue t
  | .string s => s ≠ ""
  | _ => false

/-- The string that is duplicated for a value. -/
def argText : Json → String
  | .null => ""
  | jarg => bus.getString jarg

/-- `append_dbus_message_arg` for the letters of basic types. -/
def storeBasic (type : Char) (jarg : Json) : Slot :=
  if type = 'b' then .int (ofBool (js.getBoolean jarg))
  else if type = 'u' ∨ type = 'i' then .int (js.getInt jarg)
  else if type = 'd' then .double (js.getDouble jarg)
  else if type = 's' then .string (argText bus jarg)
  else .null

/-- `append_dbus_message_arg`. A variant is stored by the type of the JSON value. -/
def storeArg (type : Char) (jarg : Json) : Slot :=
  if type = 'v' then storeBasic js bus (jsonDbusTypes jarg) jarg else storeBasic js bus type jarg

/-- The loop of `parse_json_args` from argument `i` on, with `sigptr` at letter `k`: what goes to `json_sig` and
to `args`. JSON's null takes no letter. -/
def storeLoop (sig : Signature) : ℕ → ℕ → List Json → Outcome (List (Char × Slot))
  | _, _, [] => .ok []
  | k, i, jarg :: jargs =>
    if dbusArgs ≤ i then .error .bounds
    else if jarg.isNull then do
      return ('\x00', .string "") :: (← storeLoop sig k (i + 1) jargs)
    else do
      let type ← sig.read k
      return (jsonDbusTypes jarg, storeArg js bus type jarg) :: (← storeLoop sig (k + 1) (i + 1) jargs)

/-- `parse_json_args`: the signature and what is stored; nothing where it returns -1. `json_object_array_length`
wants an array. -/
def storeJsonArgs (names : Names) (jarray : Json) : Outcome (Option (Signature × List (Char × Slot))) := do
  match ← argSignature bus names with
  | none => return none
  | some sig =>
    match jarray with
    | .array items => return some (sig, ← storeLoop js bus sig 0 0 items)
    | _ => .error .wild

end Slots

/-- A slot as a pointer to characters. -/
def Slot.text : Slot → CStr
  | null => .null
  | string s => .live s
  | _ => .wild

/-- A slot read as the memory of an `int`. -/
def Slot.readInt : Slot → Outcome (BitVec 32)
  | int v => .ok v
  | null => .error .null
  | double _ | string _ => .error .wild

def Slot.readString (slot : Slot) : Outcome String := slot.text.read

def Slot.readDouble : Slot → Outcome String
  | double t => .ok t
  | null => .error .null
  | _ => .error .wild

/-- A `struct json_request`, less its id: the message, and what the slots of its arguments hold. -/
structure JsonRequest where
  dmsg : DbusMessage
  slots : List Slot
  seen : dmsg.args = slots.map Slot.text

/-- The message as it stands after `parse_json_args`. -/
def jsonMessage (names : Names) (sig : Signature) (stored : List (Char × Slot)) : DbusMessage where
  destination := names.destination
  interface := .live names.interface
  path := .live names.path
  member := .live names.member
  type := names.type
  argNumber := stored.length
  argSig := sig.letters.takeWhile (· ≠ '\x00')
  jsonSig := stored.map Prod.fst
  args := stored.map fun a => a.2.text
  unset := .null

/-- The request with it. -/
def jsonRequest (names : Names) (sig : Signature) (stored : List (Char × Slot)) : JsonRequest :=
  ⟨jsonMessage names sig stored, stored.map Prod.snd, by rw [jsonMessage, List.map_map]; rfl⟩

section Request
variable (js : JsonC) (bus : Bus)

/-- The request after `parse_json_args`. -/
def parseJsonArgs (names : Names) (jarray : Json) : Outcome (Option JsonRequest) := do
  let stored ← storeJsonArgs js bus names jarray
  return stored.map fun r => jsonRequest names r.1 r.2

/-- The `type` of a request, which only one without a destination has. -/
def getType (jobj : Json) (destination : CStr) : Outcome CStr :=
  if destination.IsSet then .ok .null else getJsonStrObj bus jobj "type"

/-- The names `convert_json_request` looks up, one after the other; nothing when the interface, the
path or the method is missing. -/
def getNames (jobj : Json) : Outcome (Option Names) := do
  let destination ← getJsonStrObj bus jobj "destination"
  let type ← getType bus jobj destination
  match ← getJsonStrObj bus jobj "interface" with
  | .live interface =>
    match ← getJsonStrObj bus jobj "path" with
    | .live path =>
      match ← getJsonStrObj bus jobj "method" with
      | .live member => return some ⟨destination, type, interface, path, member⟩
      | _ => return none
    | _ => return none
  | _ => return none

/-- `convert_json_request` of a parsed text; nothing where it returns NULL. -/
def convertParsed (jobj : Json) : Outcome (Option JsonRequest) := do
  match ← getNames bus jobj with
  | none => return none
  | some names =>
    match jobj.getEx "args" with
    | none => return none
    | some jarray =>
      let req ← parseJsonArgs js bus names jarray
      return if (jobj.getEx "id").isSome then req else none

/-- `convert_json_request`. -/
def convertJsonRequest (rawJsonReq : String) : Outcome (Option JsonRequest) :=
  match bus.tokenerParse rawJsonReq with
  | none => .ok none
  | some jobj => convertParsed js bus jobj

/-- `append_variant`: what is appended for the type of the JSON value, if that is known. -/
def appendVariant (type : Char) (slot : Slot) : Outcome (Option DbusValue) :=
  if type = 'i' then do return some (.variant (.int32 (← slot.readInt)))
  else if type = 'u' then do return some (.variant (.uint32 (← slot.readInt)))
  else if type = 'b' then do return some (.variant (.boolean ((← slot.readInt) ≠ 0)))
  else if type = 's' then do return some (.variant (.string (← slot.readString)))
  else if type = 'd' then do return some (.variant (.double (← slot.readDouble)))
  else .ok none

/-- One round of the loop of `make_dbus_call`: what is appended to the message. A letter that is not known ends the
process. -/
def sendArg (letter jsonType : Char) (slot : Slot) : Outcome (Option DbusValue) :=
  if letter = 's' then do return some (.string (← slot.readString))
  else if letter = 'u' then do return some (.uint32 (← slot.readInt))
  else if letter = 'i' then do return some (.int32 (← slot.readInt))
  else if letter = 'b' then do return some (.boolean ((← slot.readInt) ≠ 0))
  else if letter = 'v' then appendVariant jsonType slot
  else .error .exit

/-- The checks of `dbus_message_iter_append_basic`: strings are UTF-8, and booleans 0 or 1. -/
def Bus.takes (type : Char) : Slot → Bool
  | .string s => type ≠ 's' || bus.isUtf8 s
  | .int v => type ≠ 'b' || v = 0 || v = 1
  | _ => true

/-- The same round with libdbus, which ends the process if a check fails. -/
def appendArg (letter jsonType : Char) (slot : Slot) : Outcome (Option DbusValue) := do
  let value ← sendArg letter jsonType slot
  if bus.takes (if letter = 'v' then jsonType else letter) slot then return value else .error .exit

/-- `make_dbus_call`. -/
def makeDbusCall (req : JsonRequest) : Outcome (Option String) := do
  bus.newMessage req.dmsg
  let values ← (List.range req.dmsg.argNumber).mapM fun i =>
    appendArg bus (req.dmsg.argSig[i]?.getD '\x00') (req.dmsg.jsonSig[i]?.getD '\x00') (req.slots[i]?.getD .null)
  return bus.reply req.dmsg (values.filterMap id)

/-- `make_json_request`. `Hello` is answered without the bus. -/
def makeJsonRequest (req : JsonRequest) : Outcome (Option String) := do
  if (← req.dmsg.member.read) = "Hello" then return some "Hello"
  else makeDbusCall bus req

/-- `ws_request_handler` of a converted request, up to the ring: filter, then call. -/
def handleRequest (w : World) (b : BrokerState) (domid : ℕ) (req : JsonRequest) :
    Outcome (Handled × BrokerState) := do
  let (allowed, b') ← isRequestAllowed w b req.dmsg true domid
  if allowed then
    match ← makeJsonRequest bus req with
    | none => return (.unanswered, b')
    | some reply => return (.replied reply (req.dmsg.member = .live "AddMatch"), b')
  else return (.rejected, b')

/-- `ws_request_handler`, up to the ring. -/
def wsRequestHandler (w : World) (b : BrokerState) (domid : ℕ) (rawReq : String) :
    Outcome (Handled × BrokerState) := do
  match ← convertJsonRequest js bus rawReq with
  | none => return (.rejected, b)
  | some req => handleRequest bus w b domid req

end Request

end Xctools.Broker
