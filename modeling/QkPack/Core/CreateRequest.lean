import QkPack.Core.Routes
import QkPack.Parser.ReadSingle
import QkPack.Retry.Asking

/-!
# From the request of a client to its commands

`QkPackHandler::CreateRequest` for the requests of clients: the body is read, access control is asked, a node is
looked for, and the command is built. A request that fails on this way is turned into a `PING`, or is answered at
once if its command is one for sub-requests.
-/

namespace QkPack
open Wire CString Resp

/-- What is left to do for a request: to send `proto_str`, to start sub-requests, or nothing, as its answer is
written or nginx ends it. -/
inductive Creation where
  | single (request : Request)
  | fanOut (request : Request)
  | answered (request : Request)
  | failed

section Create

variable (h : Handler) (scripts : ScriptCache)

/-- `CreateRequestError` for a request of a client. -/
def createError (request : Request) : Creation :=
  match createRequestError h scripts none request with
  | (.ok,request,_) => if checkSubRequest request then .answered request else .single request
  | _ => .failed

/-- The end of `CreateRequest`; an exception ends the worker. -/
def encodeRequest (request : Request) : Option Creation :=
  match (redisProtoEncode h.proto scripts none request).1 with
  | .ok request => some (.single request)
  | .error .redisError => some (createError h scripts { request with code := .unknown })
  | .error _ => none

/-- `CreateRequest` behind `GetNode`. For a request without a node the function for sub-requests is called, which
reads the parent that is not there. -/
def dispatchRequest (request : Request) : Option Creation :=
  if checkSubRequest request then some (.fanOut request)
  else if request.nodeIp = [] then none
  else encodeRequest h scripts request

variable (answer : Option AclRecord) (replies : Bytes → Option Bytes)

/-- `CreateRequest` behind `ParseRequestBody`. -/
def admitRequest (client : Client) (s : Routing) : Option (Creation × Routing) :=
  match process answer client s.table with
  | .error _ => none
  | .ok (none,client,table) =>
    some (createError h scripts { client.request with code := .illegalRight },{ s with table := table })
  | .ok (some i,client,table) =>
    match table.objects[i]? with
    | none => none
    | some object =>
      match getNode replies object.record.route object.isMatchIp client s.clusters with
      | .error _ => none
      | .ok (.ok,request,clusters) =>
        (dispatchRequest h scripts request).map fun creation => (creation,⟨table,clusters⟩)
      | .ok (_,request,clusters) =>
        some (createError h scripts { request with code := .unknown },⟨table,clusters⟩)

def createRequest (http : HttpRequest) (s : Routing) : Option (Creation × Routing) :=
  match http.parseRequestBody with
  | none => none
  | some (.ok,client) => admitRequest h scripts answer replies client s
  | some (_,client) => some (createError h scripts { client.request with code := .parseError },s)

end Create

/-- Access control has accepted a request, which is then `client`. -/
def Approved (answer : Option AclRecord) (http : HttpRequest) (table : AclTable) (client : Client) : Prop :=
  ∃ opened i table', http.parseRequestBody = some (.ok,opened) ∧
    process answer opened table = .ok (some i,client,table')

theorem Approved.unique {answer : Option AclRecord} {http : HttpRequest} {table : AclTable} {client client' : Client}
    (h : Approved answer http table client) (h' : Approved answer http table client') : client = client' := by
  obtain ⟨opened,i,table₁,hparse,hprocess⟩ := h
  obtain ⟨opened',i',table₁',hparse',hprocess'⟩ := h'
  rw [hparse, Option.some.injEq, Prod.mk.injEq] at hparse'
  rw [← hparse'.2, hprocess, Except.ok.injEq, Prod.mk.injEq, Prod.mk.injEq] at hprocess'
  exact hprocess'.2.1

section Created

variable {h : Handler} {scripts : ScriptCache} {answer : Option AclRecord} {replies : Bytes → Option Bytes}

theorem getNode_request {route : Route} {isMatchIp : Bool} {client : Client} {clusters clusters' : Clusters}
    {rc : QkpackRc} {request : Request}
    (hnode : getNode replies route isMatchIp client clusters = .ok (rc,request,clusters')) :
    ∃ nodeIp, request = { client.request with nodeIp := nodeIp } := by
  obtain ⟨⟨rc₁,clusters₁⟩,-,hrest⟩ := bind_eq_ok.mp hnode
  simp only at hrest
  split at hrest
  · split at hrest
    · cases hrest
      exact ⟨_,rfl⟩
    · split at hrest
      · cases hrest
        exact ⟨_,rfl⟩
      · cases hrest
        exact ⟨_,rfl⟩
  · cases hrest
    exact ⟨_,rfl⟩

theorem parseResponseError_checkSubRequest (request : Request) :
    checkSubRequest (parseResponseError h request) = checkSubRequest request := by
  unfold parseResponseError Handler.write
  split
  · rfl
  · rfl

theorem createError_single {request r : Request} (hcode : request.code ≠ .ok)
    (hcreate : createError h scripts request = .single r) :
    checkSubRequest request = false ∧ r = { request with nodeIp := h.backupServer, protoStr := pingFrame } := by
  unfold createError at hcreate
  by_cases hsub : checkSubRequest request = true
  · have hanswered := (parseResponseError_checkSubRequest (h := h) request).trans hsub
    simp only [createRequestError, hsub, if_true, processBodyError, hanswered] at hcreate
    cases hcreate
  · rw [Bool.not_eq_true] at hsub
    have hsub' : checkSubRequest { request with nodeIp := h.backupServer, protoStr := pingFrame } = false := hsub
    rw [createRequestError_single request hsub hcode] at hcreate
    simp only [hsub'] at hcreate
    cases hcreate
    exact ⟨hsub,rfl⟩

theorem createError_ne_fanOut {request r : Request} : createError h scripts request ≠ .fanOut r := by
  unfold createError
  split
  · split
    · nofun
    · nofun
  · nofun

/-- A request that goes out on its own: a `PING` for one that has failed, or the command of one that access
control has accepted. -/
inductive SentSingle (h : Handler) (scripts : ScriptCache) (answer : Option AclRecord) (http : HttpRequest)
    (table : AclTable) (r : Request) : Prop
  | ping (hsingle : checkSubRequest r = false) (hcode : r.code ∈ [.parseError,.illegalRight,.unknown])
      (hping : r.protoStr = pingFrame)
  | command (client : Client) (nodeIp : Bytes) (happroved : Approved answer http table client)
      (hsingle : checkSubRequest client.request = false)
      (hencode : (redisProtoEncode h.proto scripts none { client.request with nodeIp := nodeIp }).1 = .ok r)

variable {http : HttpRequest} {s s' : Routing} {r : Request}

theorem sentSingle_error {table : AclTable} {request : Request}
    (hcode : request.code ∈ [.parseError,.illegalRight,.unknown])
    (hcreate : createError h scripts request = .single r) : SentSingle h scripts answer http table r := by
  have hne : request.code ≠ .ok := by
    intro hok
    rw [hok] at hcode
    revert hcode
    decide
  obtain ⟨hsingle,rfl⟩ := createError_single hne hcreate
  exact .ping hsingle hcode rfl

theorem admitRequest_cases {client : Client} {creation : Creation}
    (haccept : admitRequest h scripts answer replies client s = some (creation,s')) :
    (∃ request, request.code ∈ [.parseError,.illegalRight,.unknown] ∧ creation = createError h scripts request) ∨
      ∃ i client' table' nodeIp, process answer client s.table = .ok (some i,client',table') ∧
        dispatchRequest h scripts { client'.request with nodeIp := nodeIp } = some creation := by
  unfold admitRequest at haccept
  split at haccept
  · cases haccept
  · cases haccept
    exact .inl ⟨_,by simp,rfl⟩
  · rename_i i client' table' hprocess
    split at haccept
    · cases haccept
    · split at haccept
      · cases haccept
      · rename_i request clusters hnode
        obtain ⟨nodeIp,rfl⟩ := getNode_request hnode
        obtain ⟨creation',hdispatch,hcreation⟩ := Option.map_eq_some_iff.mp haccept
        cases hcreation
        exact .inr ⟨i,client',table',nodeIp,hprocess,hdispatch⟩
      · cases haccept
        exact .inl ⟨_,by simp,rfl⟩

/-- Every creation of a request is an error, or follows a request that access control has accepted. -/
theorem createRequest_cases {creation : Creation}
    (hcreate : createRequest h scripts answer replies http s = some (creation,s')) :
    (∃ request, request.code ∈ [.parseError,.illegalRight,.unknown] ∧ creation = createError h scripts request) ∨
      ∃ client nodeIp, Approved answer http s.table client ∧
        dispatchRequest h scripts { client.request with nodeIp := nodeIp } = some creation := by
  unfold createRequest at hcreate
  split at hcreate
  · cases hcreate
  · rename_i client hparse
    rcases admitRequest_cases hcreate with herror | ⟨i,client',table',nodeIp,hprocess,hdispatch⟩
    · exact .inl herror
    · exact .inr ⟨client',nodeIp,⟨client,i,table',hparse,hprocess⟩,hdispatch⟩
  · cases hcreate
    exact .inl ⟨_,by simp,rfl⟩

theorem createRequest_single (hcreate : createRequest h scripts answer replies http s = some (.single r,s')) :
    SentSingle h scripts answer http s.table r := by
  rcases createRequest_cases hcreate with ⟨request,hcode,heq⟩ | ⟨client,nodeIp,happroved,hdispatch⟩
  · exact sentSingle_error hcode heq.symm
  · unfold dispatchRequest at hdispatch
    split at hdispatch
    · cases hdispatch
    · rename_i hsingle
      split at hdispatch
      · cases hdispatch
      · unfold encodeRequest at hdispatch
        split at hdispatch
        · rename_i request hencode
          cases hdispatch
          exact .command client nodeIp happroved (by simpa [checkSubRequest] using hsingle) hencode
        · exact sentSingle_error (by simp) (Option.some.inj hdispatch)
        · cases hdispatch

theorem createRequest_fanOut (hcreate : createRequest h scripts answer replies http s = some (.fanOut r,s')) :
    ∃ client nodeIp, Approved answer http s.table client ∧ r = { client.request with nodeIp := nodeIp } := by
  rcases createRequest_cases hcreate with ⟨request,-,heq⟩ | ⟨client,nodeIp,happroved,hdispatch⟩
  · exact absurd heq.symm createError_ne_fanOut
  · unfold dispatchRequest at hdispatch
    split at hdispatch
    · cases hdispatch
      exact ⟨client,nodeIp,happroved,rfl⟩
    · split at hdispatch
      · cases hdispatch
      · unfold encodeRequest at hdispatch
        split at hdispatch
        · cases hdispatch
        · exact absurd (Option.some.inj hdispatch) createError_ne_fanOut
        · cases hdispatch

end Created

end QkPack
