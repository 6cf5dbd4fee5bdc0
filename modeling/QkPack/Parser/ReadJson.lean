import QkPack.FanOut.SubRequests
import QkPack.Lib.Json
import QkPack.Lib.SortedMap

/-!
# Reading the bodies of requests for several keys

The `ReadJson*` functions of the commands that are answered by sub-requests, with their checks. The text
is parsed by the JSON library; `none` is a text it does not accept. The slots are computed from the
namespace behind the last slash of the URI; without one of two bytes nothing is filled in, and the body
counts as read.
-/

namespace QkPack
open Wire CString Resp Json

section Validate

/-- The loop of `ValidateStrEmpty` behind the first `i` bytes: it goes over the blanks, and over the byte that ends
them. -/
def blankLoop (valLen : Int) : Nat → Bytes → Nat
  | i, [] => i
  | i, c :: s => if (i : Int) < valLen then if c = 32 then blankLoop valLen (i + 1) s else i + 1 else i

/-- `ValidateStrEmpty`. The length is kept in an `int`; blanks before a single last byte count as empty, too. -/
def validateStrEmpty : Bytes → Bool
  | [] => false
  | c :: s =>
    let valLen := int32 (c :: s).length
    let i : Int := blankLoop valLen 0 (c :: s)
    decide (valLen ≠ 0 ∧ ¬ (valLen = 1 ∧ c = 32) ∧ ¬ (i ≠ 1 ∧ i = valLen))

def validateString (notExist notEmpty : String) : Option Bytes → Except Bytes Bytes
  | none => .error (text notExist)
  | some s => if validateStrEmpty s then .ok s else .error (text notEmpty)

def validateArray (notExist notEmpty : String) : Option (List Tree) → Except Bytes (List Tree)
  | none => .error (text notExist)
  | some values => if values = [] then .error (text notEmpty) else .ok values

def validateNumber (notExist : String) : Option Double → Except Bytes Double
  | none => .error (text notExist)
  | some d => .ok d

def validateACLInfo : Option Bytes → Option Bytes → Except Bytes Bytes
  | none, none => .error (text "acl obj may not be null")
  | none, some _ => .error (text "acl uri not exist")
  | some _, none => .error (text "acl appkey not exist")
  | some uri, some ak =>
    match validateStrEmpty uri, validateStrEmpty ak with
    | false, false => .error (text "acl obj may not be null")
    | false, true => .error (text "acl uri may not be empty")
    | true, false => .error (text "acl appkey may not be empty")
    | true, true => .ok uri

def validateKVPairByKey (key : Option Bytes) : Except Bytes Bytes :=
  validateString "kvpair key not exist" "kvpair key may not be empty" key

def validateKVPair (key value : Option Bytes) : Except Bytes (Bytes × Bytes) := do
  let key ← validateKVPairByKey key
  let value ← validateString "kvpair value not exist" "kvpair value may not be empty" value
  return (key,value)

def validateMultiKVPair (keys : Option (List Tree)) : Except Bytes (List Tree) :=
  validateArray "kvpair ks not exist" "kvpair ks may not be empty" keys

def validateZSet (key : Option Bytes) (mbs : Option (List Tree)) : Except Bytes (Bytes × List Tree) := do
  let key ← validateString "zset key not exist" "zset key may not be empty" key
  let mbs ← validateArray "zset mbs not exist" "zset mbs may not be empty" mbs
  return (key,mbs)

def validateZSetKeys (keys : Option (List Tree)) : Except Bytes (List Tree) :=
  validateArray "zset ks not exist" "zset ks may not be empty" keys

def validateZSetMembers (member value : Option Bytes) (score : Option Double) :
    Except Bytes (Bytes × Bytes × Double) := do
  let member ← validateString "zset member not exist" "zset member may not be empty" member
  let value ← validateString "zset value not exist" "zset value may not be empty" value
  let score ← validateNumber "zset score not exist" score
  return (member,value,score)

def validateZSetQuery (key : Option Bytes) (min max : Option Double) :
    Except Bytes (Bytes × Double × Double) := do
  let key ← validateString "zset query key not exist" "zset query key may not be empty" key
  let min ← validateNumber "zset query min not exist" min
  let max ← validateNumber "zset query max not exist" max
  return (key,min,max)

end Validate

def refuse (request : Request) (desc : Bytes) : QkpackRc × Request :=
  (.error,{ request with desc := desc })

/-- `client_max_body_size` in the configuration of the server, which refuses a longer body before the module
sees it. -/
def clientMaxBodySize : Nat := 300 * 1024 * 1024

/-- The beginning of every body: the URI and the application key, then what the command needs. -/
def withAcl {α : Type} (node : Option Tree) (check : Tree → Except Bytes α) (request : Request)
    (read : α → Request → QkpackRc × Request) : QkpackRc × Request :=
  match node with
  | none => refuse request (text "json format is illegal")
  | some node =>
    match validateACLInfo (node.getString "uri") (node.getString "ak") with
    | .error desc => refuse request desc
    | .ok uri =>
      match check node with
      | .error desc => refuse request desc
      | .ok a => read a { request with uri := uri }

def readEach {α : Type} (check : Tree → Except Bytes α) (enter : Request → α → Request) :
    List Tree → Request → QkpackRc × Request
  | [], request => (.ok,request)
  | value :: values, request =>
    match check value with
    | .error desc => refuse request desc
    | .ok a => readEach check enter values (enter request a)

/-- `find_last_of("/")`. -/
def findLastSlash (uri : Bytes) : Int :=
  (uri.length : Int) - 1 - (uri.reverse.takeWhile (· != 47)).length

def lastNamespaces (uri : Bytes) : Option Bytes :=
  let index := findLastSlash uri
  if index ≤ 0 then none else some (uri.drop (index + 1).toNat)

/-- The namespace is taken over, whether or not it has the right length. -/
def setLastNamespaces (request : Request) : Bool × Request :=
  match lastNamespaces request.uri with
  | none => (false,request)
  | some namespaces => (namespaces.length == 2,{ request with namespaces := namespaces })

/-- `map_slots_kv[slot].push_back(&kv)` for the entries of a vector. -/
def pushSlots (namespaces : Bytes) (kvs : List KvPair) (slots : List (Int × List KvPair)) :
    List (Int × List KvPair) :=
  kvs.foldl (fun slots kv => mapPush (keyHashSlot (namespaces ++ kv.key) : Int) kv slots) slots

/-- An entry without a score and a limit, which its constructor leaves open. -/
def KvPair.plain (key value : Bytes) : KvPair := ⟨key,value,.finite 0,0⟩

/-- The end of `ReadJsonMget` and `ReadJsonMset`. -/
def fillVectorSlots (request : Request) : Request :=
  match setLastNamespaces request with
  | (false,request) => request
  | (true,request) => { request with
      mapSlotsKv := pushSlots request.namespaces request.vectorKv request.mapSlotsKv }

/-- `ReadJsonMget` and `ReadJsonMset`: the elements of `ks` go to `vector_kv`. -/
def readVector {α : Type} (check : Tree → Except Bytes α) (entry : α → KvPair) (node : Option Tree)
    (request : Request) : QkpackRc × Request :=
  withAcl node (fun node => validateMultiKVPair (node.getArray "ks")) request fun keys request =>
    match readEach check (fun request a => { request with vectorKv := request.vectorKv ++ [entry a] })
      keys request with
    | (.ok,request) => (.ok,fillVectorSlots request)
    | r => r

def readJsonMget (node : Option Tree) (request : Request) : QkpackRc × Request :=
  readVector (fun value => validateKVPairByKey (value.getString "k")) (fun key => .plain key [])
    node request

def readJsonMset (node : Option Tree) (request : Request) : QkpackRc × Request :=
  readVector (fun value => validateKVPair (value.getString "k") (value.getString "v"))
    (fun kv => .plain kv.1 kv.2) node request

def readMembers (key : Bytes) (mbs : List Tree) (request : Request) : QkpackRc × Request :=
  readEach (fun mb => validateZSetMembers (mb.getString "mb") (mb.getString "v") (mb.getNumber "sc"))
    (fun request m => { request with
      mapKv := mapPush key ⟨m.1,m.2.1,m.2.2,0⟩ request.mapKv }) mbs request

def readJsonZfixedsetAdd (node : Option Tree) (request : Request) : QkpackRc × Request :=
  withAcl node (fun node => validateZSet (node.getString "k") (node.getArray "mbs")) request
    fun zset request =>
      match setLastNamespaces request with
      | (false,request) => (.ok,request)
      | (true,request) =>
        match readMembers zset.1 zset.2 request with
        | (.ok,request) =>
          let vectorKv := (request.mapKv.lookup zset.1).getD []
          (.ok,{ request with
            mapSlotsKv := pushSlots request.namespaces vectorKv request.mapSlotsKv })
        | r => r

/-- The sets of `ReadJsonZfixedsetBatchAdd`, one after the other. -/
def readSets : List Tree → Request → QkpackRc × Request
  | [], request => (.ok,request)
  | value :: values, request =>
    match validateZSet (value.getString "k") (value.getArray "mbs") with
    | .error desc => refuse request desc
    | .ok (key,mbs) =>
      match readMembers key mbs request with
      | (.ok,request) => readSets values request
      | r => r

def readJsonZfixedsetBatchAdd (node : Option Tree) (request : Request) : QkpackRc × Request :=
  withAcl node (fun node => validateZSetKeys (node.getArray "ks")) request fun keys request =>
    match setLastNamespaces request with
    | (false,request) => (.ok,request)
    | (true,request) =>
      match readSets keys request with
      | (.ok,request) => (.ok,{ request with
          mapSlotsKv := fillSlots request.namespaces request.mapKv request.mapSlotsKv })
      | r => r

/-- `map_query[key] = query`. -/
def setQuery (key : Bytes) (query : ZsetQuery) (request : Request) : Request :=
  { request with mapQuery := SortedMap.alter key (fun _ => query) request.mapQuery }

/-- A query; the two flags are only set by `true`. -/
def readQuery (node : Tree) : Except Bytes (Bytes × ZsetQuery) := do
  let (key,min,max) ← validateZSetQuery (node.getString "k") (node.getNumber "min")
    (node.getNumber "max")
  return (key,{ min := min, max := max, asc := node.getTrue "asc", ws := node.getTrue "ws" })

def readJsonZfixedsetGetByScore (node : Option Tree) (request : Request) : QkpackRc × Request :=
  withAcl node readQuery request fun query request =>
    (.ok,setQuery query.1 query.2 request)

def readJsonZfixedsetBatchGetByScore (node : Option Tree) (request : Request) : QkpackRc × Request :=
  withAcl node (fun node => validateZSetKeys (node.getArray "ks")) request fun keys request =>
    readEach readQuery (fun request query => setQuery query.1 query.2
      { request with vectorKv := request.vectorKv ++ [.plain query.1 []] }) keys request

def Request.opened (command : CommandType) : Request := { Request.fresh with commandType := command }

/-- `ParseRequestBody` for the commands that are answered by sub-requests. -/
def readJsonFanOut (node : Option Tree) (request : Request) : QkpackRc × Request :=
  match request.commandType with
  | .mget => readJsonMget node request
  | .mset => readJsonMset node request
  | .zadd => readJsonZfixedsetAdd node request
  | .zbatchadd => readJsonZfixedsetBatchAdd node request
  | .zrangebyscore | .zrange => readJsonZfixedsetGetByScore node request
  | .batchzrangebyscore => readJsonZfixedsetBatchGetByScore node request
  | _ => (.ok,request)

end QkPack
