import QkPack.Core.TenantService
import QkPack.Core.Tenants
import QkPack.Parser.AnswerTrees
import QkPack.Parser.BodyMeaning

/-!
# From posted bodies to the answers that clients read

Bodies are posted for the commands on single keys, and each goes all the way: it is read, access control and the
routing accept it, the command is sent to the key space of all tenants, and the text of the answer is read by the
client. What a client reads is what the store of its tenant answers.
-/

namespace QkPack
open Wire CString Resp Json KeyServer

section Admission

/-- A record under which the keys of a namespace live for some time, and its values are compressed from `t` on. -/
structure Suits (t : Bytes → Int) (uri : Bytes) (record : AclRecord) : Prop where
  expire : 0 < record.expire ∧ record.expire < 2 ^ 31
  threshold : ∀ ns, behindSlash 3 uri = some ns → record.compressThreshold = t ns

structure AclTable.Suited (t : Bytes → Int) (table : AclTable) : Prop where
  sound : table.Sound
  records : ∀ object ∈ table.objects, Suits t object.uri object.record

theorem AclTable.suited_empty (t : Bytes → Int) : AclTable.empty.Suited t :=
  ⟨AclTable.sound_empty,List.forall_mem_nil _⟩

variable {t : Bytes → Int} {answer : Option AclRecord} {client client' : Client} {table table' : AclTable}

theorem setACL_records {ak uri : Bytes} {found : Option Nat}
    (ht : ∀ object ∈ table.objects, Suits t object.uri object.record)
    (hanswer : ∀ record ∈ answer, Suits t uri record) (h : setACL answer ak uri table = (found,table')) :
    ∀ object ∈ table'.objects, Suits t object.uri object.record := by
  unfold setACL at h
  split at h
  · cases h
    exact ht
  · split at h
    · cases h
      exact ht
    · cases h
      exact List.forall_mem_append.mpr ⟨ht,List.forall_mem_singleton.mpr (hanswer _ rfl)⟩

theorem AclTable.Suited.process (ht : table.Suited t) (huri : 0 ∉ client.request.uri)
    (hanswer : ∀ record ∈ answer, Suits t client.request.uri record) {found : Option Nat}
    (h : process answer client table = .ok (found,client',table')) : table'.Suited t := by
  refine ⟨ht.sound.process huri h,?_⟩
  unfold QkPack.process at h
  split at h
  · rename_i request hname
    obtain ⟨_,-,-,-,rfl⟩ := setNameSpace_inv hname
    split at h
    · rename_i table₁ hset
      cases h
      exact setACL_records ht.records hanswer hset
    · rename_i i table₁ hset
      have hrecords := setACL_records ht.records hanswer hset
      split at h
      · cases h
        exact hrecords
      · rename_i object hobject
        obtain ⟨⟨rc,client₁,object₁⟩,hrecord,h⟩ := bind_eq_ok.mp h
        cases h
        obtain ⟨isMatchIp,rfl⟩ := processRecord_object hrecord
        intro other hother
        rcases List.mem_or_eq_of_mem_set hother with hold | rfl
        · exact hrecords other hold
        · exact hrecords object (List.mem_of_getElem? hobject)
  · cases h
    exact ht.records

/-- A request for a single key as access control leaves it: with the namespace of its URI and what the record says of
its keys. -/
theorem process_single (ht : table.Suited t) (huri : 0 ∉ client.request.uri)
    (hanswer : ∀ record ∈ answer, Suits t client.request.uri record)
    (hsingle : client.request.commandType ∉ [.zadd,.zbatchadd]) {i : Nat}
    (h : process answer client table = .ok (some i,client',table')) :
    ∃ ns record clusterName tries, behindSlash 3 client.request.uri = some ns ∧ ns.length = 2 ∧
      Suits t client.request.uri record ∧ client'.request = { client.request with
        namespaces := ns
        clusterName := clusterName
        exptime := record.expire
        compressThreshold := record.compressThreshold
        tries := tries } := by
  obtain ⟨request,object,object',hname,hset,hobject,hrecord,-⟩ := process_inv h
  obtain ⟨ns,-,hns,hlen,rfl⟩ := setNameSpace_inv hname
  rw [cStr_behindSlash huri hns] at hlen hrecord
  obtain ⟨clusterName,isMatchIp,r,hcluster,-,-,-,hlimit,rfl⟩ := processRecord_inv hrecord
  obtain ⟨tries,htries⟩ := checkInterfaceTimeout_request object.record.timeouts { client with request := r }
  obtain ⟨found,hfound,hak,hfetched⟩ := ht.sound.setACL hns hlen (Prod.ext hset rfl)
  have hsuits : Suits t client.request.uri object.record := by
    have hmem := setACL_records ht.records hanswer (Prod.ext hset rfl) object (List.mem_of_getElem? hobject)
    rw [hobject] at hfound
    cases hfound
    rwa [hfetched] at hmem
  refine ⟨ns,object.record,clusterName,tries,hns,hlen,hsuits,?_⟩
  have hsame : r = (Client.admitted { client with request := { client.request with namespaces := ns } } clusterName
      object.record).request := by
    unfold getZsetLimit at hlimit
    split at hlimit
    case h_1 hzadd =>
      have hcommand : client.request.commandType = .zadd := hzadd
      simp [hcommand] at hsingle
    case h_2 hbatch =>
      have hcommand : client.request.commandType = .zbatchadd := hbatch
      simp [hcommand] at hsingle
    case h_3 => exact (Prod.mk.inj hlimit).2.symm
  rw [htries, hsame]
  rfl

end Admission

section Approval

variable {t : Bytes → Int} {answer : Option AclRecord} {http : HttpRequest} {table : AclTable} {client : Client}
  {node : Tree} {key ns : Bytes} {command : CommandType} {operationType : OperationType} {c : TenantCommand}

/-- What a client posts for the command `c` on a key of its namespace. -/
def Posts (t : Bytes → Int) (http : HttpRequest) (answer : Option AclRecord) (ns key : Bytes)
    (c : TenantCommand) : Prop :=
  ∃ node command operationType uri, http.body = some node ∧
    parseRequestUri http.uri = some (command,operationType) ∧ node.size ≤ clientMaxBodySize ∧
    node.getString "uri" = some uri ∧ behindSlash 3 uri = some ns ∧ node.getString "k" = some key ∧
    AsksFor node command c ∧ ∀ record ∈ answer, Suits t uri record

theorem AsksFor.single (h : AsksFor node command c) : command ∉ [.zadd,.zbatchadd] := by
  cases c with
  | incrBy n => rcases h with ⟨rfl,-⟩ | ⟨rfl,-⟩ <;> decide
  | set v | sismember v | sadd vs | srem vs =>
    obtain ⟨rfl,-⟩ := h
    decide
  | get | del | scard | smembers =>
    cases h
    decide

theorem Posts.approved (hposts : Posts t http answer ns key c) (ht : table.Suited t)
    (happroved : Approved answer http table client) (nodeIp : Bytes) :
    Addressed { client.request with nodeIp := nodeIp } ns key ∧
      c.CarriedBy (t ns) { client.request with nodeIp := nodeIp } := by
  obtain ⟨node,command,operationType,uri,hbody,hinterface,hsize,huri,hns,hkey,hask,hanswer⟩ := hposts
  have hshort := happroved.reading (by simpa [hbody] using hsize)
  obtain ⟨opened,i,table',hparse,hprocess⟩ := happroved
  obtain ⟨command',operationType',request,hinterface',hread,rfl⟩ := HttpRequest.parseRequestBody_read hparse
  rw [hinterface] at hinterface'
  cases hinterface'
  rw [hbody] at hread
  have hreadAs := AsksFor.read hkey hask hread
  have hsame : request.uri = uri := Option.some.inj (hreadAs.uri.symm.trans huri)
  obtain ⟨ns',record,clusterName,tries,hns',htwo,hsuits,hrequest⟩ := process_single ht
    (nul_notMem_getString hreadAs.uri) (by simpa [HttpRequest.client, hsame] using hanswer)
    (by simpa [HttpRequest.client, hreadAs.command] using hask.single) hprocess
  have hbehind : behindSlash 3 request.uri = some ns' := hns'
  rw [hsame, hns] at hbehind
  cases hbehind
  obtain ⟨kind,⟨-,-,-,hkeys⟩,-⟩ := hshort
  have hshortKey : client.request.key.length + 2 < 2 ^ 31 := hkeys.key
  have hthreshold : record.compressThreshold = t ns := hsuits.threshold ns hns'
  rw [hrequest] at hshortKey ⊢
  constructor
  · exact {
      unanswered := ⟨hreadAs.unanswered.code,hreadAs.unanswered.client,hreadAs.unanswered.desc⟩
      namespaces := rfl
      two := htwo
      named := hreadAs.named.2
      short := by
        rw [List.length_append, htwo, ← hreadAs.named.2]
        simp only [HttpRequest.client] at hshortKey
        omega
      exptime := hsuits.expire }
  · have hcarried := hreadAs.carried { (http.client operationType request).request with
        namespaces := ns
        clusterName := clusterName
        exptime := record.expire
        compressThreshold := record.compressThreshold
        tries := tries
        nodeIp := nodeIp } rfl rfl rfl
    rw [← hthreshold]
    exact hcarried

theorem createRequest_suited {h : Handler} {scripts : ScriptCache} {replies : Bytes → Option Bytes} {s s' : Routing}
    {creation : Creation} (hposts : Posts t http answer ns key c) (ht : s.table.Suited t)
    (hcreate : createRequest h scripts answer replies http s = some (creation,s')) : s'.table.Suited t := by
  obtain ⟨node,command,operationType,uri,hbody,hinterface,hsize,huri,hns,hkey,hask,hanswer⟩ := hposts
  unfold createRequest at hcreate
  split at hcreate
  · cases hcreate
  · rename_i opened hparse
    obtain ⟨command',operationType',request,hinterface',hread,rfl⟩ := HttpRequest.parseRequestBody_read hparse
    rw [hinterface] at hinterface'
    cases hinterface'
    rw [hbody] at hread
    have hreadAs := AsksFor.read hkey hask hread
    have hsame : request.uri = uri := Option.some.inj (hreadAs.uri.symm.trans huri)
    have hprocess : ∀ {found client table'},
        process answer (http.client operationType request) s.table = .ok (found,client,table') → table'.Suited t :=
      fun h => ht.process (nul_notMem_getString hreadAs.uri) (by simpa [HttpRequest.client, hsame] using hanswer) h
    unfold admitRequest at hcreate
    split at hcreate
    · cases hcreate
    · rename_i hrefused
      cases hcreate
      exact hprocess hrefused
    · rename_i haccepted
      split at hcreate
      · cases hcreate
      · split at hcreate
        · cases hcreate
        · obtain ⟨_,-,heq⟩ := Option.map_eq_some_iff.mp hcreate
          cases heq
          exact hprocess haccepted
        · cases hcreate
          exact hprocess haccepted
  · cases hcreate
    exact ht

end Approval

/-- Something that is posted, in its surroundings: the hashes of scripts that are known, what the authority and the
nodes answer when they are asked, and the time it takes. Or a key of the server that vanishes. -/
inductive PostEvent where
  | post (cost : Int) (world : World) (scripts : ScriptCache) (answer : Option AclRecord)
      (replies : Bytes → Option Bytes) (http : HttpRequest)
  | vanish (nsKey : Bytes)

section Run

variable (proto : RedisProto) (backupServer : Bytes) (printDouble : Double → Bytes) (conf : UpstreamConf)
variable (server : Server)

def acceptedAlong : Routing → List PostEvent → Bool
  | _, [] => true
  | s, .vanish _ :: es => acceptedAlong s es
  | s, .post cost _ scripts answer replies http :: es =>
    match createRequest (yajlHandler proto backupServer cost printDouble) scripts answer replies http s with
    | some (.single r,s) => decide (r.code = .ok) && acceptedAlong s es
    | _ => false

def postRun : Routing × Store → List PostEvent → Option (List Bytes)
  | _, [] => some []
  | s, .vanish nsKey :: es => postRun (s.1,Function.update s.2 nsKey none) es
  | s, .post cost world scripts answer replies http :: es =>
    match createRequest (yajlHandler proto backupServer cost printDouble) scripts answer replies http s.1 with
    | some (.single r,routing) => do
      let (body,store) ← exchange (yajlHandler proto backupServer cost printDouble) conf world server s.2 r
      let bodies ← postRun (routing,store) es
      return body :: bodies
    | _ => none

end Run

/-- What is posted is what the tenant means, in UTF-8. -/
inductive PostedFor (t : Bytes → Int) (shas : QkPack.Script → Bytes) : PostEvent → TenantEvent → Prop
  | post {cost : Int} {world : World} {scripts : ScriptCache} {answer : Option AclRecord}
      {replies : Bytes → Option Bytes} {http : HttpRequest} {ns key : Bytes} {c : TenantCommand}
      (hparent : world.parent = none) (hcache : CacheOf shas scripts) (hposts : Posts t http answer ns key c)
      (hkey : IsUtf8 key) (hutf8 : c.InUtf8) :
      PostedFor t shas (.post cost world scripts answer replies http) (.command ns key c)
  | vanish {ns key : Bytes} (htwo : ns.length = 2) : PostedFor t shas (.vanish (ns ++ key)) (.expires ns key)

section Answers

variable {proto : RedisProto} (backupServer : Bytes) (printDouble : Double → Bytes) (conf : UpstreamConf)
variable {server : Server} {lua : Lua} {shas : QkPack.Script → Bytes} {t : Bytes → Int} {store : Store}
  {a : TenantStore} {s : Routing}

theorem exchange_posted (hs : Scripted proto server lua shas) {cost : Int} {world : World} {scripts : ScriptCache}
    {answer : Option AclRecord} {replies : Bytes → Option Bytes} {http : HttpRequest} {ns key : Bytes}
    {c : TenantCommand} {r : Request} {s' : Routing} (hparent : world.parent = none) (hcache : CacheOf shas scripts)
    (hposts : Posts t http answer ns key c) (ht : s.table.Suited t) (hstore : Represents proto t store a)
    (hrange : c.InRange (a ns key)) (hcode : r.code = .ok)
    (hcreate : createRequest (yajlHandler proto backupServer cost printDouble) scripts answer replies http s =
      some (.single r,s')) :
    ∃ body store', exchange (yajlHandler proto backupServer cost printDouble) conf world server store r =
        some (body,store') ∧ Shows cost key (c.apply (a ns key)).1 body ∧
      Represents proto t store' (a.after (.command ns key c)) := by
  rcases createRequest_single hcreate with ⟨-,hping,-⟩ | ⟨client,nodeIp,happroved,-,hencode⟩
  · rw [hcode] at hping
    exact absurd hping (by decide)
  · obtain ⟨haddressed,hcarried⟩ := hposts.approved ht happroved nodeIp
    have hhandles := handles_command backupServer printDouble hs hcache haddressed (hstore ns key haddressed.two)
      hcarried hrange
    obtain ⟨body,item,scripts',hserve,hshows,hheld,-⟩ := hhandles.serve cost conf haddressed hparent
    refine ⟨body,Function.update store (ns ++ key) item,?_,hshows,hstore.update haddressed.two hheld⟩
    unfold serve at hserve
    split at hserve
    · rename_i r' cache hencode'
      have hsame : r' = r := Except.ok.inj ((congrArg Prod.fst hencode').symm.trans hencode)
      obtain ⟨⟨body',store'⟩,hexchange,heq⟩ := Option.map_eq_some_iff.mp hserve
      cases heq
      rw [← hsame, hexchange]
    · cases hserve

theorem postRun_represents (hs : Scripted proto server lua shas) {es : List PostEvent} {fs : List TenantEvent}
    (hposted : List.Forall₂ (PostedFor t shas) es fs)
    (haccepted : acceptedAlong proto backupServer printDouble s es = true) (ht : s.table.Suited t)
    (hrange : InRangeAlong a fs) (hstore : Represents proto t store a) :
    ∃ bodies, postRun proto backupServer printDouble conf server (s,store) es = some bodies ∧
      List.Forall₂ (fun shown body => ∃ cost, Shows cost shown.1 shown.2 body) (tenantAnswers a fs) bodies := by
  induction hposted generalizing s store a with
  | nil => exact ⟨[],rfl,.nil⟩
  | cons hfirst _ ih =>
    obtain ⟨hnow,hlater⟩ := hrange
    cases hfirst with
    | @post cost world scripts answer replies http ns key c hparent hcache hposts hkey hutf8 =>
      rw [acceptedAlong] at haccepted
      split at haccepted
      · rename_i r s' hcreate
        obtain ⟨hcode,haccepted⟩ := Bool.and_eq_true_iff.mp haccepted
        obtain ⟨body,store',hexchange,hshows,hstore'⟩ := exchange_posted backupServer printDouble conf hs hparent
          hcache hposts ht hstore hnow (of_decide_eq_true hcode) hcreate
        obtain ⟨bodies,hrun,hall⟩ := ih haccepted (createRequest_suited hposts ht hcreate) hlater hstore'
        refine ⟨body :: bodies,?_,.cons ⟨cost,hshows⟩ hall⟩
        simp only [postRun, hcreate, hexchange, Option.bind_eq_bind, Option.bind_some, hrun, Option.pure_def]
      · cases haccepted
    | @vanish ns key htwo =>
      obtain ⟨bodies,hrun,hall⟩ := ih haccepted ht hlater (hstore.update htwo .nothing)
      exact ⟨bodies,hrun,hall⟩

theorem tenantAnswers_inUtf8 {es : List PostEvent} {fs : List TenantEvent}
    (hposted : List.Forall₂ (PostedFor t shas) es fs) (ha : ∀ ns key, ∀ h ∈ a ns key, h.InUtf8) :
    ∀ said ∈ tenantAnswers a fs, IsUtf8 said.1 ∧ said.2.InUtf8 := by
  induction hposted generalizing a with
  | nil => exact List.forall_mem_nil _
  | cons hfirst _ ih =>
    have hput : ∀ {ns key held}, (∀ h ∈ held, h.InUtf8) → ∀ ns' key', ∀ h ∈ a.put ns key held ns' key', h.InUtf8 := by
      intro ns key held hheld ns' key'
      rw [TenantStore.put]
      split
      · exact hheld
      · exact ha ns' key'
    cases hfirst with
    | @post _ _ _ _ _ _ ns key c _ _ _ hkey hutf8 =>
      obtain ⟨hanswer,hheld⟩ := hutf8.apply (ha ns key)
      exact List.forall_mem_cons.mpr ⟨⟨hkey,hanswer⟩,ih (hput hheld)⟩
    | vanish _ => exact ih (hput fun _ hh => absurd hh (Option.not_mem_none _))

/-- Whatever is posted and accepted, one after the other and by all tenants: every body is answered, and its client
reads in the text of the response what the store of its tenant answers. -/
theorem posted_answers_read (hs : Scripted proto server lua shas) {es : List PostEvent} {fs : List TenantEvent}
    (hposted : List.Forall₂ (PostedFor t shas) es fs)
    (haccepted : acceptedAlong proto backupServer printDouble .empty es = true)
    (hrange : InRangeAlong (fun _ _ => none) fs) :
    ∃ bodies, postRun proto backupServer printDouble conf server (.empty,fun _ => none) es = some bodies ∧
      List.Forall₂ (fun said body => ∃ cost tree, IsText body tree ∧ Says cost said.1 said.2 tree)
        (tenantAnswers (fun _ _ => none) fs) bodies := by
  have hempty : Represents proto t (fun _ => none) fun _ _ => none := fun _ _ _ => .nothing
  obtain ⟨bodies,hrun,hall⟩ := postRun_represents backupServer printDouble conf hs hposted haccepted
    (AclTable.suited_empty t) hrange hempty
  have hutf8 := tenantAnswers_inUtf8 (a := fun _ _ => none) hposted fun _ _ _ hh => nomatch hh
  refine ⟨bodies,hrun,((List.forall₂_and_left ..).mpr ⟨hutf8,hall⟩).imp ?_⟩
  rintro said body ⟨⟨hkey,hanswer⟩,cost,hshows⟩
  obtain ⟨tree,htext,hsaid⟩ := hshows.read hkey hanswer
  exact ⟨cost,tree,htext,hsaid⟩

end Answers

section TwoTenants

/-- A body for the key `k` of a namespace, posted to a path. -/
def postHttp (path uri : String) (members : List (Bytes × Tree)) : HttpRequest where
  uri := text path
  body := some (.object ((text "uri",.string (text uri)) :: (text "ak",.string (text "x")) ::
    (text "k",.string (text "k")) :: members))
  bodyLength := 64
  xRealIp := text "10.1.0.9"
  tries := 3
  timeout := 0

/-- It is posted where no script is known and the authority allows everything. -/
def posting (path uri : String) (members : List (Bytes × Tree)) : PostEvent :=
  .post 3 emptyWorld (fun _ _ => []) (some openRecord) oneMaster (postHttp path uri members)

/-- Both tenants use one key; the first tenant's runs out. -/
def twoPosting : List PostEvent :=
  [posting "/hdp/kvstore/kv/set" "qkd://BJ/aa" [(text "v",.string (text "x"))],
    posting "/hdp/kvstore/kv/incr" "qkd://BJ/bb" [],posting "/hdp/kvstore/kv/get" "qkd://BJ/aa" [],
    .vanish (text "aa" ++ text "k"),posting "/hdp/kvstore/kv/get" "qkd://BJ/aa" [],
    posting "/hdp/kvstore/kv/get" "qkd://BJ/bb" []]

def twoPostingMeant : List TenantEvent :=
  [.command (text "aa") (text "k") (.set wordX),.command (text "bb") (text "k") (.incrBy 1),
    .command (text "aa") (text "k") .get,.expires (text "aa") (text "k"),.command (text "aa") (text "k") .get,
    .command (text "bb") (text "k") .get]

theorem openRecord_suits (uri : Bytes) : ∀ record ∈ some openRecord, Suits (fun _ => 1024) uri record := by
  intro record hrecord
  cases hrecord
  exact ⟨by decide,fun _ _ => rfl⟩

theorem posting_for {path uri : String} {members : List (Bytes × Tree)} {node : Tree} {ns : Bytes}
    {command : CommandType} {c : TenantCommand} (hnode : (postHttp path uri members).body = some node)
    (hask : AsksFor node command c) (hutf8 : c.InUtf8) (hpath : (parseRequestUri (text path)).map (·.1) = some command)
    (hsize : node.size ≤ clientMaxBodySize) (huri : node.getString "uri" = some (text uri))
    (hns : behindSlash 3 (text uri) = some ns) (hkey : node.getString "k" = some (text "k")) :
    PostedFor (fun _ => 1024) shaOf (posting path uri members) (.command ns (text "k") c) := by
  obtain ⟨⟨command,operationType⟩,hinterface,rfl⟩ := Option.map_eq_some_iff.mp hpath
  exact .post rfl (fun _ _ => .inl rfl)
    ⟨node,command,operationType,text uri,hnode,hinterface,hsize,huri,hns,hkey,hask,openRecord_suits (text uri)⟩
    (isUtf8_of_ascii (by decide)) hutf8

theorem twoPosting_for : List.Forall₂ (PostedFor (fun _ => 1024) shaOf) twoPosting twoPostingMeant := by
  have hword : IsUtf8 wordX.bytes := isUtf8_of_ascii (by decide)
  refine .cons (posting_for rfl ⟨rfl,by decide +kernel,by decide⟩ hword ?_ ?_ ?_ ?_ ?_) <|
    .cons (posting_for rfl (.inl ⟨rfl,rfl⟩) trivial ?_ ?_ ?_ ?_ ?_) <|
    .cons (posting_for rfl rfl trivial ?_ ?_ ?_ ?_ ?_) <| .cons (.vanish rfl) <|
    .cons (posting_for rfl rfl trivial ?_ ?_ ?_ ?_ ?_) <| .cons (posting_for rfl rfl trivial ?_ ?_ ?_ ?_ ?_) .nil
  all_goals decide +kernel

theorem posted_answers_read_two :
    tenantAnswers (fun _ _ => none) twoPostingMeant =
      [(text "k",.stored),(text "k",.count 1),(text "k",.value (some (text "x"))),(text "k",.value none),
        (text "k",.value (some (text "1")))] ∧
    ∃ bodies, postRun scriptedProto (text "127.0.0.1:8010") (fun _ => []) (tableConf 3 2) scriptedServer
        (.empty,fun _ => none) twoPosting = some bodies ∧
      List.Forall₂ (fun said body => ∃ cost tree, IsText body tree ∧ Says cost said.1 said.2 tree)
        (tenantAnswers (fun _ _ => none) twoPostingMeant) bodies := by
  refine ⟨by decide,posted_answers_read _ _ _ scripted twoPosting_for (by decide +kernel) ?_⟩
  refine ⟨trivial,⟨by norm_num,?_⟩,trivial,trivial,trivial,trivial,trivial⟩
  intro m hm
  cases Option.some.inj hm
  decide

end TwoTenants

end QkPack
