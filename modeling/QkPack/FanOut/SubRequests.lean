import QkPack.Core.Handler
import QkPack.Core.Slot

/-!
# Sub-requests of a request for several keys

`CreateSubRequestBody` is called again after every round of sub-requests; `phase` says what is to be
done next. What the sub-requests are about is handed to them in the arguments of an URI.
-/

namespace QkPack
open Wire CString Resp

/-- A sub-request before it is started: the command its URI stands for, and its arguments. -/
structure SubRequest where
  uri : CommandType
  args : Bytes
deriving DecidableEq

def argSlotid (slotId : Int) : Bytes := text "&slotid=" ++ toString32 slotId

def slotSub (uri : CommandType) (slotId : Int) : SubRequest :=
  ⟨uri,text "is_subrequest=1" ++ argSlotid slotId⟩

def keyArgs (key : Bytes) (slotId : Int) : Bytes :=
  text "is_subrequest=1" ++ text "&key=" ++ key ++ argSlotid slotId

def keySub (uri : CommandType) (namespaces key : Bytes) : SubRequest :=
  ⟨uri,keyArgs key (keyHashSlot (namespaces ++ key))⟩

/-- A request answered by sub-requests, with those that are still to be sent (`vector_sub`) and those of
the present round (`subrequest`). -/
structure Parent where
  request : Request
  vectorSub : List SubRequest
  subrequest : List SubRequest

/-- `mset_max_count_` and `batchadd_max_count_`. -/
structure Limits where
  msetMaxCount : Nat
  batchaddMaxCount : Nat

def Parent.setPhase (p : Parent) (phase : Phase) : Parent :=
  { p with request := { p.request with phase := phase } }

def Parent.write (h : Handler) (writer : Writer) (p : Parent) : QkpackRc × Parent :=
  let (rc,request) := h.write writer p.request
  (rc,{ p with request := request })

def checkSubRequestStatus (p : Parent) : QkpackRc := if p.request.code ≠ .ok then .error else .ok

def Parent.slotSubs (uri : CommandType) (p : Parent) : List SubRequest :=
  p.request.mapSlotsKv.map fun slot => slotSub uri slot.1

/-- A round of at most `limit` of the sub-requests in `vectorSub`, after which `phase` follows. -/
def Parent.batch (p : Parent) (limit : Nat) (phase : Phase) (vectorSub : List SubRequest) :
    QkpackRc × Parent :=
  if vectorSub = [] then (.error,{ p with subrequest := [], vectorSub := [] })
  else (.again,{ p with
    subrequest := vectorSub.take limit
    vectorSub := vectorSub.drop limit }.setPhase phase)

section Create

variable (h : Handler) (limits : Limits)

/-- The only round that does not begin with an empty `subrequest`. -/
def createSubRequestMget (p : Parent) : QkpackRc × Parent :=
  let p := if p.request.phase = .start then p.setPhase .mget else p
  match p.request.phase with
  | .mget => (.again,{ p with subrequest := p.subrequest ++ p.slotSubs .mget }.setPhase .done)
  | .done => if checkSubRequestStatus p = .ok then p.write h .mget else (.error,p)
  | _ => (.error,p)

def processMset (p : Parent) : QkpackRc × Parent :=
  match p.request.phase with
  | .mset =>
    p.batch limits.msetMaxCount .done (if p.vectorSub = [] then p.slotSubs .mset else p.vectorSub)
  | .done =>
    if checkSubRequestStatus p ≠ .ok then (.error,p)
    else if p.vectorSub ≠ [] then (.again,p.setPhase .mset)
    else (.ok,p)
  | _ => (.error,p)

def createSubRequestMset (p : Parent) : QkpackRc × Parent :=
  let p := if p.request.phase = .start then p.setPhase .mset else p
  match processMset limits p with
  | (.again,p) =>
    if p.request.phase = .mset then processMset limits p
    else if p.request.phase = .done then (.again,p)
    else (.error,p)
  | (.ok,p) => p.write h .mset
  | (_,p) => (.error,p)

/-- With members still to be sent the phase becomes that of the batch command, whatever the command. -/
def createSubRequestZfixedsetAdd (p : Parent) : QkpackRc × Parent :=
  let p := if p.request.phase = .start then p.setPhase .zfixedsetAdd else p
  match p.request.phase with
  | .zfixedsetAdd =>
    p.batch limits.batchaddMaxCount .mset
      (if p.vectorSub = [] then
        p.request.mapKv.map fun kv => keySub .zadd p.request.namespaces kv.1
      else p.vectorSub)
  | .mset =>
    if checkSubRequestStatus p ≠ .ok then (.error,p)
    else
      let p := { p with subrequest := [] }
      if p.vectorSub ≠ [] then (.again,p.setPhase .zfixedsetBatchadd)
      else createSubRequestMset h limits p
  | _ => createSubRequestMset h limits p

def processZfixedsetBatchAdd (p : Parent) : QkpackRc × Parent :=
  createSubRequestZfixedsetAdd h limits
    (if p.request.phase = .zfixedsetBatchadd then p.setPhase .zfixedsetAdd else p)

def createSubRequestZfixedsetBatchAdd (p : Parent) : QkpackRc × Parent :=
  let p := if p.request.phase = .start then p.setPhase .zfixedsetBatchadd else p
  match processZfixedsetBatchAdd h limits p with
  | (.again,p) =>
    if p.request.phase = .zfixedsetBatchadd then processZfixedsetBatchAdd h limits p else (.again,p)
  | r => r

end Create

/-- `map_slots_kv[slot].push_back(&kv)` for every entry of `map_kv`. -/
def fillSlots (namespaces : Bytes) (mapKv : List (Bytes × List KvPair))
    (slots : List (Int × List KvPair)) : List (Int × List KvPair) :=
  (mapKv.flatMap (·.2)).foldl
    (fun slots kv => mapPush (keyHashSlot (namespaces ++ kv.key) : Int) kv slots) slots

/-- The entries as they are seen through `map_slots_kv`, which holds pointers to them. -/
def seenKvs (namespaces : Bytes) : List KvPair → List (Int × List KvPair) →
    List KvPair × List (Int × List KvPair)
  | [], slots => ([],slots)
  | kv :: kvs, slots =>
    let slot : Int := keyHashSlot (namespaces ++ kv.key)
    let seen := ((slots.lookup slot).bind List.head?).getD kv
    let (rest,slots) := seenKvs namespaces kvs
      (slots.map fun s => if s.1 = slot then (s.1,s.2.tail) else s)
    (seen :: rest,slots)

def seenMap (namespaces : Bytes) : List (Bytes × List KvPair) → List (Int × List KvPair) →
    List (Bytes × List KvPair)
  | [], _ => []
  | (key,kvs) :: rest, slots =>
    let (kvs,slots) := seenKvs namespaces kvs slots
    (key,kvs) :: seenMap namespaces rest slots

/-- `FilterGetByScoreMemberNullValue`. -/
def filterGetByScoreMemberNullValue (mapKv : List (Bytes × List KvPair)) :
    List (Bytes × List KvPair) :=
  (mapKv.map fun entry => (entry.1,entry.2.filter (·.value ≠ null))).filter (·.2 ≠ [])

section CreateByScore

variable (h : Handler) (limits : Limits)

def finishGetByScore (p : Parent) : QkpackRc × Parent :=
  if checkSubRequestStatus p ≠ .ok then (.error,p)
  else
    let mapKv := filterGetByScoreMemberNullValue
      (seenMap p.request.namespaces p.request.mapKv p.request.mapSlotsKv)
    let writer := if p.request.commandType = .batchzrangebyscore then Writer.zfixedsetBatchGetByScore
      else .zfixedsetGetByScore
    Parent.write h writer { p with request := { p.request with mapKv := mapKv } }

def createSubRequestZfixedsetGetByScore (p : Parent) : QkpackRc × Parent :=
  let p := if p.request.phase = .start then p.setPhase .zfixedsetGetbyscore else p
  match p.request.phase with
  | .zfixedsetGetbyscore =>
    let uri := if p.request.commandType = .zrange then CommandType.zrange else .zrangebyscore
    let subs := p.request.mapQuery.map fun query => keySub uri p.request.namespaces query.1
    (.again,{ p with subrequest := subs }.setPhase .mget)
  | .mget =>
    if checkSubRequestStatus p ≠ .ok then (.error,p)
    else
      let slots := fillSlots p.request.namespaces p.request.mapKv p.request.mapSlotsKv
      let p := { p with subrequest := [], request := { p.request with mapSlotsKv := slots } }
      if slots ≠ [] then createSubRequestMget h p else finishGetByScore h (p.setPhase .done)
  | .done => finishGetByScore h p
  | _ => (.error,p)

def createSubRequestZfixedsetBatchGetByScore (p : Parent) : QkpackRc × Parent :=
  createSubRequestZfixedsetGetByScore h
    (if p.request.phase = .start ∨ p.request.phase = .zfixedsetBatchgetbyscore
      then p.setPhase .zfixedsetGetbyscore else p)

def createSubRequestBody (p : Parent) : QkpackRc × Parent :=
  if p.request.code ≠ .ok then (.error,p)
  else match p.request.commandType with
    | .mget => createSubRequestMget h p
    | .mset => createSubRequestMset h limits p
    | .zadd => createSubRequestZfixedsetAdd h limits p
    | .zbatchadd => createSubRequestZfixedsetBatchAdd h limits p
    | .zrangebyscore | .zrange => createSubRequestZfixedsetGetByScore h p
    | .batchzrangebyscore => createSubRequestZfixedsetBatchGetByScore h p
    | _ => (.error,p)

end CreateByScore

end QkPack
