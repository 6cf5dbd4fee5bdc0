import QkPack.Core.Request
import QkPack.Lib.Machine

/-!
# The peers of an upstream

Nodes of a cluster become known while requests are served. `ngx_http_qkupstream_node_get_peer` looks for the peer of an
address and, when there is none, adds the address first to the servers of the upstream and then to its peers. The
tables are those of the upstream that was found by its name.
-/

namespace QkPack
open Wire CString Resp

structure Addr where
  name : Bytes
  sockaddr : Bytes
deriving DecidableEq

/-- An entry of `uscf->servers`. -/
structure UpstreamServer where
  host : Bytes
  id : Bytes
  addrs : List Addr
  weight : Nat
  maxFails : Nat
  failTimeout : Nat
  down : Bool
  backup : Bool
deriving DecidableEq

structure RrPeer where
  name : Bytes
  sockaddr : Bytes
  host : Bytes
  id : Bytes
  weight : Nat
  effectiveWeight : Nat
  currentWeight : Nat
  maxFails : Nat
  failTimeout : Nat
  fails : Nat
  down : Bool
deriving DecidableEq

/-- `ngx_http_upstream_rr_peers_t`; `number` is the length of `peer`. -/
structure RrPeers where
  peer : List RrPeer
  totalWeight : Nat
  single : Bool
  weighted : Bool
deriving DecidableEq

structure PeerTable where
  servers : List UpstreamServer
  peers : RrPeers
deriving DecidableEq

def PeerTable.names (t : PeerTable) : List Bytes := t.peers.peer.map (·.name)

section Config

def UpstreamServer.peer (server : UpstreamServer) (addr : Addr) : RrPeer where
  name := addr.name
  sockaddr := addr.sockaddr
  host := server.host
  id := server.id
  weight := server.weight
  effectiveWeight := server.weight
  currentWeight := 0
  maxFails := server.maxFails
  failTimeout := server.failTimeout
  fails := 0
  down := server.down

/-- The tables that `ngx_http_upstream_init_round_robin` makes of the configuration. Backup servers are servers, but
they are not among these peers. -/
def initRoundRobin (servers : List UpstreamServer) : PeerTable :=
  let used := servers.filter fun server => !server.backup
  let number := (used.map fun server => server.addrs.length).sum
  let weight := (used.map fun server => server.addrs.length * server.weight).sum
  let spare := servers.any fun server => server.backup && !server.addrs.isEmpty
  ⟨servers,⟨used.flatMap fun server => server.addrs.map server.peer,weight,number == 1 && !spare,weight != number⟩⟩

end Config

section Growth

/-- What `ngx_parse_url` makes of a text, or `none` when it says why not. -/
structure ParsedUrl where
  host : Bytes
  addrs : List Addr

variable (parseUrl : Bytes → Option ParsedUrl)

def compareServer (servers : List UpstreamServer) (url : Bytes) : Option UpstreamServer :=
  servers.find? fun server => server.addrs.any (·.name == url)

def existPeer (peers : RrPeers) (url : Bytes) : Bool := peers.peer.any (·.name == url)

/-- `ngx_http_qkupstream_get_peers`. -/
def getPeers (t : PeerTable) (upstreamIp : Bytes) : Option RrPeer :=
  if upstreamIp = [] then none else t.peers.peer.find? (·.name == upstreamIp)

/-- A server as `ngx_memzero` leaves it. -/
def UpstreamServer.zero : UpstreamServer := ⟨[],[],[],0,0,0,false,false⟩

/-- `ngx_http_qkupstream_add_server`; `pushed` says whether there was memory for the entry. The caller does not look at
the return value. -/
def addServer (pushed : Bool) (upstreamIp : Bytes) (t : PeerTable) : PeerTable :=
  if upstreamIp = [] then t
  else if (compareServer t.servers upstreamIp).isSome then t
  else if t.servers = [] then t
  else match parseUrl upstreamIp with
    | none => t
    | some u =>
      if !pushed then t
      -- Without an address the entry stays as it is, and the function fails.
      else if u.addrs = [] then { t with servers := t.servers ++ [UpstreamServer.zero] }
      else { t with servers := t.servers ++ [{ UpstreamServer.zero with
        host := u.host, addrs := u.addrs, maxFails := 6 }] }

/-- A peer behind the last one. The array is copied by a size that is computed from `number - 1`; the first entry is
part of the head. -/
def RrPeers.push (peers : RrPeers) (peer : RrPeer) : RrPeers :=
  let n := peers.peer.length - 1
  let array := peers.peer.take (n + 1) ++ [peer]
  ⟨array,peers.totalWeight + peer.weight,array.length == 1,peers.totalWeight + peer.weight != array.length⟩

/-- `ngx_http_qkupstream_add_peer`; `allocated` says whether there was memory for the array. The peer is made for the
first address of the server. -/
def addPeer (allocated : Bool) (upstreamIp : Bytes) (t : PeerTable) : PeerTable :=
  if upstreamIp = [] then t
  else match compareServer t.servers upstreamIp with
    | none => t
    | some us =>
      if existPeer t.peers upstreamIp then t
      else if !allocated then t
      else match us.addrs with
        | [] => t
        | addr :: _ => { t with peers := t.peers.push (us.peer addr) }

/-- An address for which `ngx_parse_url` gives itself. -/
structure CanonicalAddress (ip : Bytes) : Prop where
  ne_nil : ip ≠ []
  parsed : ∃ host sockaddr, parseUrl ip = some ⟨host,[⟨ip,sockaddr⟩]⟩

/-- A request for the peer of a node. -/
structure PeerRequest where
  ip : Bytes
  canonical : CanonicalAddress parseUrl ip
  pushed : Bool
  allocated : Bool

/-- `ngx_http_qkupstream_node_get_peer`, with the peer it returns. -/
def nodeGetPeer (t : PeerTable) (e : PeerRequest parseUrl) : Option RrPeer × PeerTable :=
  match getPeers t e.ip with
  | some peer => (some peer,t)
  | none =>
    let t := addPeer e.allocated e.ip (addServer parseUrl e.pushed e.ip t)
    (getPeers t e.ip,t)

def peerStep (t : PeerTable) (e : PeerRequest parseUrl) : Option PeerTable := some (nodeGetPeer parseUrl t e).2

end Growth

section Tables

variable {parseUrl : Bytes → Option ParsedUrl} {t : PeerTable} {ip : Bytes} {server : UpstreamServer}

theorem mem_names_iff : ip ∈ t.names ↔ ∃ peer ∈ t.peers.peer, peer.name = ip := List.mem_map

theorem getPeers_eq_none_iff (hip : ip ≠ []) : getPeers t ip = none ↔ ip ∉ t.names := by
  rw [getPeers, if_neg hip, List.find?_eq_none, mem_names_iff]
  simp

theorem getPeers_eq_some {peer : RrPeer} (h : getPeers t ip = some peer) : peer ∈ t.peers.peer ∧ peer.name = ip := by
  unfold getPeers at h
  split at h
  · cases h
  · exact ⟨List.mem_of_find?_eq_some h,by simpa using List.find?_some h⟩

theorem existPeer_eq_false (h : ip ∉ t.names) : existPeer t.peers ip = false := by
  rw [existPeer, List.any_eq_false]
  intro peer hpeer heq
  exact h (mem_names_iff.mpr ⟨peer,hpeer,by simpa using heq⟩)

theorem compareServer_mem (h : compareServer t.servers ip = some server) :
    server ∈ t.servers ∧ ∃ addr ∈ server.addrs, addr.name = ip :=
  ⟨List.mem_of_find?_eq_some h,by simpa using List.find?_some h⟩

theorem compareServer_append (hnone : compareServer t.servers ip = none)
    (hserver : ∃ addr ∈ server.addrs, addr.name = ip) :
    compareServer (t.servers ++ [server]) ip = some server := by
  have hlast : server.addrs.any (·.name == ip) = true := by simpa using hserver
  rw [compareServer] at hnone ⊢
  rw [List.find?_append, hnone, List.find?_singleton, if_pos hlast]
  rfl

theorem RrPeers.push_peer (peers : RrPeers) (peer : RrPeer) : (peers.push peer).peer = peers.peer ++ [peer] := by
  rw [RrPeers.push, List.take_of_length_le (by omega)]

def PeerTable.peerName (t : PeerTable) (ip : Bytes) : Bytes :=
  ((compareServer t.servers ip).bind (·.addrs.head?)).elim ip (·.name)

theorem peerName_of_none (h : compareServer t.servers ip = none) : t.peerName ip = ip := by
  rw [PeerTable.peerName, h]
  rfl

def PeerRequest.fails (e : PeerRequest parseUrl) (t : PeerTable) : Bool :=
  !e.allocated || (!e.pushed && (compareServer t.servers e.ip).isNone)

theorem addServer_of_some (h : (compareServer t.servers ip).isSome = true) (pushed : Bool) :
    addServer parseUrl pushed ip t = t := by
  rw [addServer, if_pos h, ite_self]

theorem addServer_of_none (hip : CanonicalAddress parseUrl ip) (hservers : t.servers ≠ [])
    (h : compareServer t.servers ip = none) (pushed : Bool) :
    ∃ server sockaddr, server.addrs = [⟨ip,sockaddr⟩] ∧
      addServer parseUrl pushed ip t = if pushed then { t with servers := t.servers ++ [server] } else t := by
  obtain ⟨host,sockaddr,hparsed⟩ := hip.parsed
  refine ⟨{ UpstreamServer.zero with host := host, addrs := [⟨ip,sockaddr⟩], maxFails := 6 },sockaddr,rfl,?_⟩
  rw [addServer, if_neg hip.ne_nil, h, Option.isSome_none, if_neg Bool.false_ne_true, if_neg hservers, hparsed]
  cases pushed <;> rfl

theorem addPeer_of_none (h : compareServer t.servers ip = none) (allocated : Bool) : addPeer allocated ip t = t := by
  rw [addPeer, h, ite_self]

theorem addPeer_of_some (hip : ip ≠ []) (hnot : ip ∉ t.names) (h : compareServer t.servers ip = some server)
    (allocated : Bool) :
    ∃ peer : RrPeer, peer.name = t.peerName ip ∧
      addPeer allocated ip t = if allocated then { t with peers := t.peers.push peer } else t := by
  obtain ⟨-,addr,haddr,-⟩ := compareServer_mem h
  obtain ⟨first,rest,hfirst⟩ := List.exists_cons_of_ne_nil (List.ne_nil_of_mem haddr)
  refine ⟨server.peer first,?_,?_⟩
  · rw [PeerTable.peerName, h, Option.bind_some, hfirst]
    rfl
  · rw [addPeer, if_neg hip, h]
    simp only [existPeer_eq_false hnot, Bool.false_eq_true, if_false, hfirst]
    cases allocated <;> rfl

end Tables

section Requests

variable {parseUrl : Bytes → Option ParsedUrl} {t : PeerTable} {e : PeerRequest parseUrl}

theorem nodeGetPeer_of_mem (h : e.ip ∈ t.names) :
    ∃ peer ∈ t.peers.peer, peer.name = e.ip ∧ nodeGetPeer parseUrl t e = (some peer,t) := by
  cases hget : getPeers t e.ip with
  | none => exact absurd h ((getPeers_eq_none_iff e.canonical.ne_nil).mp hget)
  | some peer =>
    obtain ⟨hmem,hname⟩ := getPeers_eq_some hget
    exact ⟨peer,hmem,hname,by rw [nodeGetPeer, hget]⟩

theorem nodeGetPeer_of_not_mem (h : e.ip ∉ t.names) :
    nodeGetPeer parseUrl t e = (getPeers (nodeGetPeer parseUrl t e).2 e.ip,
      addPeer e.allocated e.ip (addServer parseUrl e.pushed e.ip t)) := by
  rw [nodeGetPeer, (getPeers_eq_none_iff e.canonical.ne_nil).mpr h]

/-- The servers grow by the address of a request, and not otherwise. -/
def ServersGrow (ip : Bytes) (t t' : PeerTable) : Prop :=
  t'.servers = t.servers ∨ ∃ server sockaddr, server.addrs = [⟨ip,sockaddr⟩] ∧ t'.servers = t.servers ++ [server]

/-- Behind a request for an address that is not there: when memory fails the peers are as before, and else they have
one more. -/
theorem nodeGetPeer_tables (hservers : t.servers ≠ []) (hnot : e.ip ∉ t.names) :
    ServersGrow e.ip t (nodeGetPeer parseUrl t e).2 ∧ ∃ peer : RrPeer, peer.name = t.peerName e.ip ∧
      (nodeGetPeer parseUrl t e).2.peers = if e.fails t then t.peers else t.peers.push peer := by
  rw [nodeGetPeer_of_not_mem hnot]
  cases hcompare : compareServer t.servers e.ip with
  | some server =>
    have hfails : e.fails t = !e.allocated := by simp [PeerRequest.fails, hcompare]
    obtain ⟨peer,hname,hadd⟩ := addPeer_of_some e.canonical.ne_nil hnot hcompare e.allocated
    rw [addServer_of_some (Option.isSome_of_eq_some hcompare), hadd, hfails]
    refine ⟨.inl ?_,peer,hname,?_⟩
    · cases e.allocated <;> rfl
    · cases e.allocated <;> rfl
  | none =>
    have hfails : e.fails t = !(e.pushed && e.allocated) := by
      simp [PeerRequest.fails, hcompare, Bool.or_comm]
    obtain ⟨server,sockaddr,haddrs,hserver⟩ := addServer_of_none e.canonical hservers hcompare e.pushed
    rw [hserver, hfails]
    cases hpushed : e.pushed with
    | false =>
      rw [if_neg Bool.false_ne_true, addPeer_of_none hcompare]
      exact ⟨.inl rfl,⟨e.ip,[],[],[],0,0,0,0,0,0,false⟩,(peerName_of_none hcompare).symm,rfl⟩
    | true =>
      rw [if_pos rfl]
      have hlisted : ∃ addr ∈ server.addrs, addr.name = e.ip := by simp [haddrs]
      have hfound := compareServer_append hcompare hlisted
      obtain ⟨peer,hname,hadd⟩ := addPeer_of_some (t := { t with servers := t.servers ++ [server] })
        e.canonical.ne_nil hnot hfound e.allocated
      have hfirst : PeerTable.peerName { t with servers := t.servers ++ [server] } e.ip = t.peerName e.ip := by
        rw [PeerTable.peerName, hfound, peerName_of_none hcompare, Option.bind_some, haddrs]
        rfl
      rw [hadd]
      refine ⟨.inr ⟨server,sockaddr,haddrs,?_⟩,peer,hname.trans hfirst,?_⟩
      · cases e.allocated <;> rfl
      · cases e.allocated <;> rfl

/-- What a request is to do with the table. -/
structure GrowsRight (t : PeerTable) (e : PeerRequest parseUrl) : Prop where
  distinct : (nodeGetPeer parseUrl t e).2.names.Nodup
  kept : t.peers.peer <+: (nodeGetPeer parseUrl t e).2.peers.peer
  present : e.ip ∈ t.names → (nodeGetPeer parseUrl t e).2 = t
  added : e.ip ∉ t.names → e.fails t = false →
    (nodeGetPeer parseUrl t e).2.peers.peer.length = t.peers.peer.length + 1
  failed : e.ip ∉ t.names → e.fails t = true →
    (nodeGetPeer parseUrl t e).2.peers = t.peers ∧ (nodeGetPeer parseUrl t e).1 = none
  returned : e.ip ∈ t.names ∨ e.fails t = false → ∃ peer ∈ (nodeGetPeer parseUrl t e).2.peers.peer,
    (nodeGetPeer parseUrl t e).1 = some peer ∧ peer.name = e.ip

/-- An address for which a peer is to be made is not listed, or it is the first address of its server. -/
def FirstListed (t : PeerTable) (e : PeerRequest parseUrl) : Prop :=
  e.ip ∉ t.names → e.fails t = false → t.peerName e.ip = e.ip

/-- The tables that the requests are to keep. -/
structure DistinctNames (t : PeerTable) : Prop where
  servers : t.servers ≠ []
  distinct : t.names.Nodup

theorem names_of_push {t' : PeerTable} {peer : RrPeer} (h : t'.peers = t.peers.push peer) :
    t'.names = t.names ++ [peer.name] := by
  rw [PeerTable.names, h, RrPeers.push_peer, List.map_append]
  rfl

theorem getPeers_of_push {t' : PeerTable} {peer : RrPeer} {ip : Bytes} (hip : ip ≠ []) (hnot : ip ∉ t.names)
    (h : t'.peers = t.peers.push peer) : (getPeers t' ip).isSome = true ↔ peer.name = ip := by
  rw [← not_iff_not, Bool.not_eq_true, Option.isSome_eq_false_iff, Option.isNone_iff_eq_none,
    getPeers_eq_none_iff hip, names_of_push h, List.mem_append, List.mem_singleton, not_or]
  exact ⟨fun hout => fun heq => hout.2 heq.symm,fun hne => ⟨hnot,fun heq => hne heq.symm⟩⟩

theorem growsRight_of_mem (h : DistinctNames t) (hmem : e.ip ∈ t.names) : GrowsRight t e := by
  obtain ⟨peer,hpeer,hname,hget⟩ := nodeGetPeer_of_mem hmem
  refine ⟨?_,?_,fun _ => by rw [hget],fun hnot => absurd hmem hnot,fun hnot => absurd hmem hnot,fun _ => ?_⟩
  · rw [hget]
    exact h.distinct
  · rw [hget]
  · rw [hget]
    exact ⟨peer,hpeer,rfl,hname⟩

theorem nodeGetPeer_fst (hmem : e.ip ∉ t.names) :
    (nodeGetPeer parseUrl t e).1 = getPeers (nodeGetPeer parseUrl t e).2 e.ip :=
  congrArg Prod.fst (nodeGetPeer_of_not_mem hmem)

theorem growsRight_of_fails (h : DistinctNames t) (hmem : e.ip ∉ t.names) (hfails : e.fails t = true) :
    GrowsRight t e := by
  obtain ⟨-,peer,-,hpeers⟩ := nodeGetPeer_tables h.servers hmem
  rw [hfails, if_pos rfl] at hpeers
  have hnames : (nodeGetPeer parseUrl t e).2.names = t.names := by
    rw [PeerTable.names, hpeers]
    rfl
  have hfine : ¬ e.fails t = false := by simp [hfails]
  refine ⟨by rw [hnames]; exact h.distinct,by rw [hpeers],fun hin => absurd hin hmem,fun _ h => absurd h hfine,
    fun _ _ => ⟨hpeers,?_⟩,fun h => absurd h (not_or.mpr ⟨hmem,hfine⟩)⟩
  rw [nodeGetPeer_fst hmem, getPeers_eq_none_iff e.canonical.ne_nil, hnames]
  exact hmem

theorem growsRight_of_push {peer : RrPeer} (h : DistinctNames t) (hmem : e.ip ∉ t.names) (hfails : e.fails t = false)
    (hpeers : (nodeGetPeer parseUrl t e).2.peers = t.peers.push peer) (hip : peer.name = e.ip) : GrowsRight t e := by
  obtain ⟨found,hsome⟩ := Option.isSome_iff_exists.mp ((getPeers_of_push e.canonical.ne_nil hmem hpeers).mpr hip)
  obtain ⟨hfound,hname⟩ := getPeers_eq_some hsome
  refine ⟨?_,?_,fun hin => absurd hin hmem,fun _ _ => ?_,fun _ hbad => ?_,fun _ => ⟨found,hfound,?_,hname⟩⟩
  · rw [names_of_push hpeers, hip]
    refine List.nodup_append.mpr ⟨h.distinct,List.nodup_singleton _,fun name hin other hother heq => ?_⟩
    rw [heq, List.mem_singleton.mp hother] at hin
    exact hmem hin
  · rw [hpeers, RrPeers.push_peer]
    exact List.prefix_append _ _
  · rw [hpeers, RrPeers.push_peer, List.length_append, List.length_singleton]
  · rw [hfails] at hbad
    cases hbad
  · rw [nodeGetPeer_fst hmem, hsome]

/-- A request does what it is to do just when the first address of the server is the right one. -/
theorem growsRight_iff (h : DistinctNames t) : GrowsRight t e ↔ FirstListed t e := by
  by_cases hmem : e.ip ∈ t.names
  · exact iff_of_true (growsRight_of_mem h hmem) fun hnot => absurd hmem hnot
  · cases hfails : e.fails t with
    | true =>
      refine iff_of_true (growsRight_of_fails h hmem hfails) fun _ hfine => ?_
      rw [hfails] at hfine
      cases hfine
    | false =>
      obtain ⟨-,peer,hname,hpeers⟩ := nodeGetPeer_tables h.servers hmem
      rw [hfails, if_neg Bool.false_ne_true] at hpeers
      constructor
      · intro hright _ _
        obtain ⟨found,-,hfirst,-⟩ := hright.returned (.inr hfails)
        rw [nodeGetPeer_fst hmem] at hfirst
        have hfound := Option.isSome_of_eq_some hfirst
        rw [← hname, (getPeers_of_push e.canonical.ne_nil hmem hpeers).mp hfound]
      · exact fun hfirst => growsRight_of_push h hmem hfails hpeers (hname.trans (hfirst hmem hfails))

end Requests

section Runs

variable {parseUrl : Bytes → Option ParsedUrl} {t t' : PeerTable} {e : PeerRequest parseUrl}

theorem DistinctNames.step (h : DistinctNames t) (hright : GrowsRight t e)
    (hstep : peerStep parseUrl t e = some t') : DistinctNames t' := by
  cases hstep
  refine ⟨?_,hright.distinct⟩
  by_cases hmem : e.ip ∈ t.names
  · rw [hright.present hmem]
    exact h.servers
  · rcases (nodeGetPeer_tables h.servers hmem).1 with hsame | ⟨server,sockaddr,-,hmore⟩
    · rw [hsame]
      exact h.servers
    · rw [hmore]
      exact List.append_ne_nil_of_left_ne_nil h.servers _

theorem exists_run (t : PeerTable) (es : List (PeerRequest parseUrl)) :
    ∃ t', Machine.run (peerStep parseUrl) t es = some t' := by
  induction es generalizing t with
  | nil => exact ⟨t,rfl⟩
  | cons e es ih => exact ih (nodeGetPeer parseUrl t e).2

theorem initRoundRobin_servers {servers : List UpstreamServer} (h : (initRoundRobin servers).peers.peer ≠ []) :
    (initRoundRobin servers).servers ≠ [] := by
  rintro hservers
  have hnil : servers = [] := hservers
  rw [hnil] at h
  exact h rfl

/-- Every address is that of a peer, or it is the only one of its server. -/
def HeldByPeers (t : PeerTable) : Prop :=
  ∀ server ∈ t.servers, ∀ addr ∈ server.addrs, addr.name ∈ t.names ∨ server.addrs = [addr]

theorem heldByPeers_initRoundRobin {servers : List UpstreamServer} (h : ∀ server ∈ servers, server.backup = false) :
    HeldByPeers (initRoundRobin servers) := by
  intro server hserver addr haddr
  refine .inl (mem_names_iff.mpr ⟨server.peer addr,?_,rfl⟩)
  have hused : server ∈ servers.filter fun server => !server.backup :=
    List.mem_filter.mpr ⟨hserver,by rw [h server hserver]; rfl⟩
  exact List.mem_flatMap.mpr ⟨server,hused,List.mem_map_of_mem haddr⟩

theorem HeldByPeers.firstListed (h : HeldByPeers t) : FirstListed t e := by
  intro hnot _
  cases hcompare : compareServer t.servers e.ip with
  | none => exact peerName_of_none hcompare
  | some server =>
    obtain ⟨hserver,addr,haddr,hname⟩ := compareServer_mem hcompare
    rcases h server hserver addr haddr with hin | honly
    · rw [hname] at hin
      exact absurd hin hnot
    · rw [PeerTable.peerName, hcompare, Option.bind_some, honly]
      exact hname

theorem HeldByPeers.step (hc : HeldByPeers t) (h : DistinctNames t) (hstep : peerStep parseUrl t e = some t') :
    HeldByPeers t' := by
  have hright : GrowsRight t e := (growsRight_iff h).mpr hc.firstListed
  cases hstep
  by_cases hmem : e.ip ∈ t.names
  · rw [hright.present hmem]
    exact hc
  · have hnames : t.names ⊆ (nodeGetPeer parseUrl t e).2.names := (hright.kept.map _).subset
    intro server hserver addr haddr
    rcases (nodeGetPeer_tables h.servers hmem).1 with hsame | ⟨added,sockaddr,haddrs,hmore⟩
    · rw [hsame] at hserver
      exact (hc server hserver addr haddr).imp (fun hin => hnames hin) id
    · rw [hmore, List.mem_append, List.mem_singleton] at hserver
      rcases hserver with hserver | rfl
      · exact (hc server hserver addr haddr).imp (fun hin => hnames hin) id
      · rw [haddrs, List.mem_singleton] at haddr
        exact .inr (by rw [haddrs, haddr])

theorem firstListed_without_backup {servers : List UpstreamServer} (hbackup : ∀ server ∈ servers, server.backup = false)
    (h : DistinctNames (initRoundRobin servers)) (es : List (PeerRequest parseUrl)) :
    Machine.Along (peerStep parseUrl) FirstListed (initRoundRobin servers) es := by
  refine (Machine.along_congr (I := fun t => DistinctNames t ∧ HeldByPeers t) (P := fun _ _ => True) ?_ ?_ ?_).mp ?_
  · intro t e t' ht hstep
    exact ⟨ht.1.step ((growsRight_iff ht.1).mpr ht.2.firstListed) hstep,ht.2.step ht.1 hstep⟩
  · exact fun ht => iff_of_true trivial ht.2.firstListed
  · exact ⟨h,heldByPeers_initRoundRobin hbackup⟩
  · exact Machine.along_of_forall (P := fun _ => True) fun _ _ => trivial

end Runs

/-- From the tables of a configuration, any sequence of requests for nodes does what it is to do, just when each
address for which a peer is made is not listed by a server yet or is the first address of its server. -/
theorem peerTable_grows_iff (parseUrl : Bytes → Option ParsedUrl) (servers : List UpstreamServer)
    (hpeers : (initRoundRobin servers).peers.peer ≠ []) (hnames : (initRoundRobin servers).names.Nodup)
    (es : List (PeerRequest parseUrl)) :
    Machine.Along (peerStep parseUrl) GrowsRight (initRoundRobin servers) es ↔
      Machine.Along (peerStep parseUrl) FirstListed (initRoundRobin servers) es := by
  obtain ⟨t,hrun⟩ := exists_run (initRoundRobin servers) es
  refine Machine.along_iff_while (I := DistinctNames) (fun h _ => growsRight_iff h) ?_
    ⟨initRoundRobin_servers hpeers,hnames⟩ hrun
  exact fun h hfirst hstep => h.step ((growsRight_iff h).mpr hfirst) hstep

def parseSame (ip : Bytes) : Option ParsedUrl := some ⟨ip,[⟨ip,ip⟩]⟩

def nodeRequest (ip : Bytes) (h : ip ≠ []) : PeerRequest parseSame := ⟨ip,⟨h,ip,ip,rfl⟩,true,true⟩

def serverAt (names : List Bytes) (backup : Bool) : UpstreamServer :=
  ⟨[],[],names.map fun name => ⟨name,name⟩,1,1,10,false,backup⟩

/-- The upstream as it is configured, and a node that is asked for twice. -/
theorem peerTable_grows_configured :
    (initRoundRobin [serverAt [text "0.0.0.0:80"] false]).peers.peer ≠ [] ∧
    (initRoundRobin [serverAt [text "0.0.0.0:80"] false]).names.Nodup ∧
    Machine.Along (peerStep parseSame) GrowsRight (initRoundRobin [serverAt [text "0.0.0.0:80"] false])
      [nodeRequest (text "10.0.0.1:7000") (by decide),nodeRequest (text "10.0.0.1:7000") (by decide)] := by
  have hpeers : (initRoundRobin [serverAt [text "0.0.0.0:80"] false]).peers.peer ≠ [] := by decide
  have hnames : (initRoundRobin [serverAt [text "0.0.0.0:80"] false]).names.Nodup := by decide
  refine ⟨hpeers,hnames,(peerTable_grows_iff parseSame _ hpeers hnames _).mpr ?_⟩
  exact firstListed_without_backup (by decide) ⟨initRoundRobin_servers hpeers,hnames⟩ _

/-- A node and a backup server with two addresses. Two requests for the second of them fail, and each adds a peer for
the first. -/
theorem peerTable_second_address :
    let servers := [serverAt [text "10.0.0.1:7000"] false,serverAt [text "10.0.0.8:7000",text "10.0.0.9:7000"] true]
    let request := nodeRequest (text "10.0.0.9:7000") (by decide)
    let first := nodeGetPeer parseSame (initRoundRobin servers) request
    let second := nodeGetPeer parseSame first.2 request
    (initRoundRobin servers).names = [text "10.0.0.1:7000"] ∧ first.1 = none ∧ second.1 = none ∧
      second.2.names = [text "10.0.0.1:7000",text "10.0.0.8:7000",text "10.0.0.8:7000"] := by
  decide +kernel

end QkPack
