import Uartd.Lib.Calls
import Uartd.Report.CurTime
import Uartd.Report.HttpReply
import Mathlib.Algebra.Order.Sub.Basic
import Mathlib.Data.Multiset.AddSub

/-!
# Uartd — reporting a key (report_key.c)

`report_key` reads the device id from a file, builds a JSON object and posts it. What
it is answered is up to the kernel and the libraries; what it then owes them is the
subject here: memory, JSON objects, the header list and the handle. `kernel` says what
may be done with what is owned, `Left` what a report leaves that comes to its end, and
`Faulted` what one met that does not.

The block of the reply is the one of `HttpReply`. The options set on the handle and log
output are left out, but for the reply, which is printed.
-/

namespace Uartd.Report

open Uartd.Lib Uartd.Protocol
open Uartd.Lib.Prog (ask)

/-- A `struct json_object *`: NULL, an error pointer, an object, or one that belongs
to another object. -/
inductive JsonPtr
  | null
  | error
  | root (a : ℕ)
  | member (owner : ℕ)
  deriving DecidableEq, Repr

def isError (obj : JsonPtr) : Bool := obj = .error

/-- The calls of `report_key` and the functions under it. -/
inductive Op
  | cdbGet (key : String)
  | fpReadFile (path mode : String)
  | localtime
  | tokenerParse (str : Option ℕ)
  | objectGet (obj : JsonPtr) (key : String)
  | getString (obj : JsonPtr)
  | put (obj : JsonPtr)
  | newObject
  | newArray
  | newString (text : List UInt8)
  | objectAdd (obj : JsonPtr) (key : String) (val : JsonPtr)
  | arrayAdd (arr val : JsonPtr)
  | toJsonString (obj : JsonPtr)
  | strdup (text : List UInt8)
  | malloc (n : ℕ)
  | realloc (p : Option ℕ) (n : ℕ)
  | free (p : Option ℕ)
  | easyInit
  | slistAppend (list : Option ℕ) (text : String)
  | perform (curl : Option ℕ) (url : String) (params : List UInt8)
  | cleanup (curl : Option ℕ)
  deriving DecidableEq

/-- What they return. A file is read into a block of its own; of a transfer, the chunks
that are to arrive, and whether it is `CURLE_OK` if no callback cuts it short. -/
abbrev Op.Ret : Op → Type
  | .cdbGet _ | .toJsonString _ => List UInt8
  | .fpReadFile _ _ => Int × Option ℕ
  | .localtime => Tm
  | .tokenerParse _ | .objectGet _ _ | .newObject | .newArray | .newString _ => JsonPtr
  | .getString _ => Option (List UInt8)
  | .strdup _ | .malloc _ | .realloc _ _ | .easyInit | .slistAppend _ _ => Option ℕ
  | .perform _ _ _ => List (List UInt8) × Bool
  | .put _ | .objectAdd _ _ _ | .arrayAdd _ _ | .free _ | .cleanup _ => Unit

abbrev cdbGet (key : String) : Prog Op.Ret (List UInt8) := ask (Op.cdbGet key)
abbrev fpReadFile (path mode : String) : Prog Op.Ret (Int × Option ℕ) :=
  ask (Op.fpReadFile path mode)
abbrev localtime : Prog Op.Ret Tm := ask Op.localtime
abbrev tokenerParse (str : Option ℕ) : Prog Op.Ret JsonPtr := ask (Op.tokenerParse str)
abbrev objectGet (obj : JsonPtr) (key : String) : Prog Op.Ret JsonPtr := ask (Op.objectGet obj key)
abbrev getString (obj : JsonPtr) : Prog Op.Ret (Option (List UInt8)) := ask (Op.getString obj)
abbrev put (obj : JsonPtr) : Prog Op.Ret Unit := ask (Op.put obj)
abbrev newObject : Prog Op.Ret JsonPtr := ask Op.newObject
abbrev newArray : Prog Op.Ret JsonPtr := ask Op.newArray
abbrev newString (text : List UInt8) : Prog Op.Ret JsonPtr := ask (Op.newString text)
abbrev objectAdd (obj : JsonPtr) (key : String) (val : JsonPtr) : Prog Op.Ret Unit :=
  ask (Op.objectAdd obj key val)
abbrev arrayAdd (arr val : JsonPtr) : Prog Op.Ret Unit := ask (Op.arrayAdd arr val)
abbrev toJsonString (obj : JsonPtr) : Prog Op.Ret (List UInt8) := ask (Op.toJsonString obj)
abbrev strdup (text : List UInt8) : Prog Op.Ret (Option ℕ) := ask (Op.strdup text)
abbrev mallocCall (n : ℕ) : Prog Op.Ret (Option ℕ) := ask (Op.malloc n)
abbrev reallocCall (p : Option ℕ) (n : ℕ) : Prog Op.Ret (Option ℕ) := ask (Op.realloc p n)
abbrev freeCall (p : Option ℕ) : Prog Op.Ret Unit := ask (Op.free p)
abbrev easyInit : Prog Op.Ret (Option ℕ) := ask Op.easyInit
abbrev slistAppend (list : Option ℕ) (text : String) : Prog Op.Ret (Option ℕ) :=
  ask (Op.slistAppend list text)
abbrev performCall (curl : Option ℕ) (url : String) (params : List UInt8) :
    Prog Op.Ret (List (List UInt8) × Bool) := ask (Op.perform curl url params)
abbrev cleanup (curl : Option ℕ) : Prog Op.Ret Unit := ask (Op.cleanup curl)

/-- `get_duercfg`: the result and what `*device_id` is set to, with its text. -/
def getDuercfg (pName : String) : Prog Op.Ret (Int × Option (ℕ × List UInt8)) := do
  let (err, jsonStr) ← fpReadFile "/root/appresources/dueros_config.json" "r"
  if err < 0 then pure (-1, none)
  else do
    let obj ← tokenerParse jsonStr
    if isError obj then do
      freeCall jsonStr
      pure (-2, none)
    else do
      let attrObj ← objectGet obj pName
      if isError attrObj then do
        put obj
        freeCall jsonStr
        pure (-3, none)
      else do
        let attr ← getString attrObj
        match attr with
        | none => do
          put obj
          freeCall jsonStr
          pure (-4, none)
        | some text => do
          let deviceId ← strdup text
          put obj
          freeCall jsonStr
          pure (err, deviceId.map fun p => (p, text))

/-- What libcurl passes to the callback for a chunk: its members have the size 1. -/
def arrived (contents : List UInt8) (realloc : Option ℕ) : Callback where
  contents := contents
  size := 1
  nmemb := contents.length
  length_eq := (Nat.one_mul _).symm
  realloc := realloc

/-- `WriteMemoryCallback` with its call of `realloc`. -/
def growReply (heap : Memory) (mem : MemoryStruct) (contents : List UInt8) :
    Prog Op.Ret (Option (ℕ × Memory × MemoryStruct)) := do
  let memory ← reallocCall mem.memory (mem.size + contents.length + 1)
  pure (writeMemoryCallback heap mem (arrived contents memory))

/-- The callbacks of a transfer, until one returns less than its chunk. -/
def transfer (heap : Memory) (mem : MemoryStruct) :
    List (List UInt8) → Prog Op.Ret (Option (Bool × Memory × MemoryStruct))
  | [] => pure (some (true, heap, mem))
  | contents :: chunks => do
    let grown ← growReply heap mem contents
    match grown with
    | none => pure none
    | some (ret, heap, mem) =>
      if ret < contents.length then pure (some (false, heap, mem))
      else transfer heap mem chunks

/-- `curl_init_and_reportdata`, with what it owns. The heap is that of the reply. `none`
is a fault: the reply is printed and is no string. -/
def curlReport (url : String) (params : List UInt8) : Prog Op.Ret (Option Int) := do
  let memory ← mallocCall 1
  let (heap, memory) := malloc (fun _ => none) 1 memory
  let curl ← easyInit
  if curl = none then pure (some (-1))
  else do
    let _ ← slistAppend none "Content-type: application/json"
    let (chunks, ok) ← performCall curl url params
    let transferred ← transfer heap ⟨memory, 0⟩ chunks
    match transferred with
    | none => pure none
    | some (complete, heap, chunk) =>
      if (complete && ok) ∧ (chunk.memory.bind heap).bind readString = none then pure none
      else do
        cleanup curl
        freeCall chunk.memory
        pure (some 0)

/-- A string as a new member of `para`. -/
def addString (para : JsonPtr) (key : String) (text : List UInt8) : Prog Op.Ret Unit := do
  let val ← newString text
  objectAdd para key val

/-- "F-8198v1.2" -/
def hardVersion : List UInt8 := [70, 45, 56, 49, 57, 56, 118, 49, 46, 50]

def directivesPath : String :=
  "http://shreportsit.suning.com/shreport-web/shvoice/keyReport.htm?"

/-- `report_key` from the first `json_object_object_add` on; `none` is a fault, as is
`json_object_new_string` of NULL. -/
def fillReport (infor para array : JsonPtr) (device : Option (ℕ × List UInt8))
    (voiceVer macAddr keyName time : List UInt8) : Prog Op.Ret (Option Unit) := do
  addString para "sysVersion" voiceVer
  addString para "hardVersion" hardVersion
  match device with
  | none => pure none
  | some (deviceId, text) => do
    addString para "deviceId" text
    addString para "macAddress" macAddr
    addString para "keyName" keyName
    addString para "time" time
    arrayAdd array para
    objectAdd infor "events" array
    freeCall (some deviceId)
    let params ← toJsonString infor
    let reported ← curlReport directivesPath params
    pure (reported.map fun _ => ())

/-- `report_key` with what it finds in `cur_time`. -/
def buildReport (device : Option (ℕ × List UInt8)) (voiceVer macAddr keyName time : List UInt8) :
    Prog Op.Ret (Option Unit) := do
  let infor ← newObject
  if infor = .null then pure (some ())
  else do
    let para ← newObject
    if para = .null then do
      put infor
      pure (some ())
    else do
      let array ← newArray
      if array = .null then do
        put infor
        put para
        pure (some ())
      else fillReport infor para array device voiceVer macAddr keyName time

/-- `report_key` from `get_duercfg` on. -/
def reportKeyFrom (curTime keyName voiceVer macAddr : List UInt8) :
    Prog Op.Ret (Option (List UInt8)) := do
  let (_, device) ← getDuercfg "device_id"
  let p ← localtime
  match getCurTime curTime p with
  | none => pure none
  | some curTime =>
    match cstringAt curTime with
    | none => pure none
    | some time => do
      let done ← buildReport device voiceVer macAddr keyName time
      pure (done.map fun _ => curTime)

/-- `report_key` with the array `cur_time`, and that array after it. It faults where
`cdb_get` writes more than its array holds: `OTA_PATH`, `VOICE_VER` or `mac_addr`. -/
def reportKey (curTime keyName : List UInt8) : Prog Op.Ret (Option (List UInt8)) := do
  let otaPath ← cdbGet "$ota_path"
  if 128 ≤ otaPath.length then pure none
  else do
    let voiceVer ← cdbGet "$sw_build"
    if 16 ≤ voiceVer.length then pure none
    else do
      let macAddr ← cdbGet "$wanif_mac"
      if 32 ≤ macAddr.length then pure none
      else reportKeyFrom curTime keyName voiceVer macAddr

/-- One report after another; it ends with the first fault. -/
def session (keys : List (List UInt8)) : Prog Op.Ret (Option (List UInt8)) :=
  keys.foldlM (fun state key =>
    match state with
    | none => pure none
    | some curTime => reportKey curTime key) (some (List.replicate 32 0))

-- ---------------------------------------------------------------------------
-- What is owned
-- ---------------------------------------------------------------------------

/-- What has to be given back; a JSON object with all that was added to it. -/
inductive Resource
  | block (a : ℕ)
  | json (a : ℕ)
  | slist (a : ℕ)
  | curl (a : ℕ)
  deriving DecidableEq

def blocks (p : Option ℕ) : Multiset Resource := p.elim 0 fun a => {.block a}
def slists (p : Option ℕ) : Multiset Resource := p.elim 0 fun a => {.slist a}
def curls (p : Option ℕ) : Multiset Resource := p.elim 0 fun a => {.curl a}

def JsonPtr.roots : JsonPtr → Multiset Resource
  | .root a => {.json a}
  | _ => 0

/-- What a call takes: it is freed, or becomes a part of something else. -/
def taken : Called Op.Ret → Multiset Resource
  | ⟨.put obj, _⟩ => obj.roots
  | ⟨.objectAdd _ _ val, _⟩ | ⟨.arrayAdd _ val, _⟩ => val.roots
  | ⟨.realloc p _, some _⟩ | ⟨.free p, _⟩ => blocks p
  | ⟨.slistAppend list _, some _⟩ => slists list
  | ⟨.cleanup curl, _⟩ => curls curl
  | _ => 0

/-- What a call gives. -/
def given : Called Op.Ret → Multiset Resource
  | ⟨.fpReadFile _ _, (_, p)⟩ => blocks p
  | ⟨.tokenerParse _, obj⟩ | ⟨.newObject, obj⟩ | ⟨.newArray, obj⟩ | ⟨.newString _, obj⟩ => obj.roots
  | ⟨.strdup _, p⟩ | ⟨.malloc _, p⟩ | ⟨.realloc _ _, p⟩ => blocks p
  | ⟨.slistAppend _ _, p⟩ => slists p
  | ⟨.easyInit, p⟩ => curls p
  | _ => 0

/-- What is owned after the calls so far. -/
def owned (h : History Op.Ret) : Multiset Resource :=
  h.foldl (fun m e => given e + (m - taken e)) 0

/-- The object of a pointer is there. -/
def Alive (m : Multiset Resource) : JsonPtr → Prop
  | .root a | .member a => .json a ∈ m
  | _ => False

/-- Only what is owned is used, given back or given away, and nothing twice. NULL may
be put, freed, looked up in and added. `cdb_get` may write any string: it is not told
the size of the array. `fp_read_file` gives a block unless it fails. A lookup finds a
part of the object or nothing, and NULL has no text. -/
def kernel : Kernel Op.Ret where
  allowed h
    | .tokenerParse str => ∃ a, str = some a ∧ .block a ∈ owned h
    | .objectGet obj _ | .getString obj => obj = .null ∨ Alive (owned h) obj
    | .put obj => obj = .null ∨ ∃ a, obj = .root a ∧ .json a ∈ owned h
    | .objectAdd obj _ val | .arrayAdd obj val =>
      Alive (owned h) obj ∧ (val = .null ∨ ∃ a, val = .root a) ∧ obj.roots + val.roots ≤ owned h
    | .toJsonString obj => Alive (owned h) obj
    | .realloc p _ | .free p => blocks p ≤ owned h
    | .slistAppend list _ => slists list ≤ owned h
    | .perform curl _ _ | .cleanup curl => ∃ a, curl = some a ∧ .curl a ∈ owned h
    | _ => True
  answers _
    | .cdbGet _, text => 0 ∉ text
    | .fpReadFile _ _, (err, str) => (str = none ↔ err < 0)
    | .localtime, tm => InRange tm
    | .tokenerParse _, obj => obj = .null ∨ obj = .error ∨ ∃ a, obj = .root a
    | .objectGet obj _, val => val = .null ∨ val = .error ∨ ∃ a, obj = .root a ∧ val = .member a
    | .getString obj, text => obj = .null → text = none
    | .newObject, obj | .newArray, obj | .newString _, obj => obj = .null ∨ ∃ a, obj = .root a
    | _, _ => True

/-- The copy of the device id. -/
def copied : Called Op.Ret → Multiset Resource
  | ⟨.strdup _, p⟩ => blocks p
  | _ => 0

/-- The first block of a reply. -/
def replied : Called Op.Ret → Multiset Resource
  | ⟨.malloc _, p⟩ => blocks p
  | _ => 0

/-- What a transfer leaves: the list of headers, and a block that could not grow. -/
def abandoned : Called Op.Ret → Multiset Resource
  | ⟨.slistAppend _ _, p⟩ => slists p
  | ⟨.realloc p _, none⟩ => blocks p
  | _ => 0

/-- Over some calls. -/
def tally (f : Called Op.Ret → Multiset Resource) (tr : History Op.Ret) : Multiset Resource :=
  (tr.map f).sum

/-- What a report that made the calls `tr` and came to its end leaves owned. -/
inductive Left (tr : History Op.Ret) : Multiset Resource → Prop
  | unmade : ⟨.newObject, .null⟩ ∈ tr ∨ ⟨.newArray, .null⟩ ∈ tr → Left tr (tally copied tr)
  | noHandle {infor : ℕ} : ⟨.newObject, .root infor⟩ ∈ tr → ⟨.easyInit, none⟩ ∈ tr →
      tally copied tr ≠ 0 → Left tr (.json infor ::ₘ tally replied tr)
  | posted {infor curl : ℕ} : ⟨.newObject, .root infor⟩ ∈ tr → ⟨.easyInit, some curl⟩ ∈ tr →
      tally copied tr ≠ 0 → Left tr (.json infor ::ₘ tally abandoned tr)

/-- The transfer succeeded, but nothing was received, or a `realloc` failed. -/
def Unprintable (tr : History Op.Ret) : Prop :=
  ∃ curl url params chunks, ⟨.perform curl url params, (chunks, true)⟩ ∈ tr ∧
    (chunks = [] ∨ ∃ p n, ⟨.realloc p n, none⟩ ∈ tr)

/-- The arrays `cdb_get` writes to, with their sizes. -/
def arrays : List (String × ℕ) := [("$ota_path", 128), ("$sw_build", 16), ("$wanif_mac", 32)]

/-- What a report that made the calls `tr` and faulted has met: a string that its array
has no room for, the containers without a device id, or a reply that is no string. -/
inductive Faulted (tr : History Op.Ret) : Prop
  | overflow {key : String} {room : ℕ} {text : List UInt8} : (key, room) ∈ arrays →
      ⟨.cdbGet key, text⟩ ∈ tr → room ≤ text.length → Faulted tr
  | noDevice {array : ℕ} : ⟨.newArray, .root array⟩ ∈ tr → tally copied tr = 0 → Faulted tr
  | unprintable : Unprintable tr → Faulted tr

end Uartd.Report
