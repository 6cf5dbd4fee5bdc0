import QkPack.Core.Service
import QkPack.Retry.Asking

/-!
# Every tenant sees a store of its own

Requests of all tenants come in any order, and keys vanish when their time is over. What the clients are shown is what
the stores of `QkPack.Core.TenantStore` answer, each of them to the commands of its own tenant.
-/

namespace QkPack
open Wire CString Resp Json KeyServer

/-- A request of a client, in its surroundings and with the time it takes, or a key of the server that vanishes. -/
inductive ServiceEvent where
  | call (cost : Int) (world : World) (request : Request)
  | vanish (nsKey : Bytes)

section Run

variable (proto : RedisProto) (backupServer : Bytes) (printDouble : Double → Bytes) (conf : UpstreamConf)
variable (server : Server)

def serviceRun : Service → List ServiceEvent → Option (List Bytes × Service)
  | s, [] => some ([],s)
  | s, .call cost world request :: es => do
    let (body,s) ← serve (yajlHandler proto backupServer cost printDouble) conf world server s request
    let (bodies,s) ← serviceRun s es
    return (body :: bodies,s)
  | s, .vanish nsKey :: es => serviceRun { s with store := Function.update s.store nsKey none } es

end Run

def tenantAnswers (a : TenantStore) : List TenantEvent → List (Bytes × Answer)
  | [] => []
  | .command ns key c :: es => (key,(c.apply (a ns key)).1) :: tenantAnswers (a.after (.command ns key c)) es
  | .expires ns key :: es => tenantAnswers (a.after (.expires ns key)) es

def TenantEvent.InRange (a : TenantStore) : TenantEvent → Prop
  | .command ns key c => c.InRange (a ns key)
  | .expires _ _ => True

def InRangeAlong (a : TenantStore) : List TenantEvent → Prop
  | [] => True
  | e :: es => e.InRange a ∧ InRangeAlong (a.after e) es

/-- What the proxy is asked is what the tenant means; every tenant has a threshold `t ns` of its own. -/
inductive Carries (t : Bytes → Int) : ServiceEvent → TenantEvent → Prop
  | call {cost : Int} {world : World} {request : Request} {ns key : Bytes} {c : TenantCommand}
      (hparent : world.parent = none) (hr : Addressed request ns key) (hc : c.CarriedBy (t ns) request) :
      Carries t (.call cost world request) (.command ns key c)
  | vanish {ns key : Bytes} (htwo : ns.length = 2) : Carries t (.vanish (ns ++ key)) (.expires ns key)

def Represents (proto : RedisProto) (t : Bytes → Int) (store : Store) (a : TenantStore) : Prop :=
  ∀ ns key, ns.length = 2 → HeldAs proto (t ns) (a ns key) (store (ns ++ key))

section Refinement

variable {proto : RedisProto} {t : Bytes → Int} {store : Store} {a : TenantStore}

theorem Represents.update (h : Represents proto t store a) {ns key : Bytes} (htwo : ns.length = 2)
    {held : Option Held} {item : Option Item} (hheld : HeldAs proto (t ns) held item) :
    Represents proto t (Function.update store (ns ++ key) item) (a.put ns key held) := by
  intro ns' key' htwo'
  rw [TenantStore.put]
  by_cases hsame : ns' = ns ∧ key' = key
  · obtain ⟨rfl,rfl⟩ := hsame
    rw [if_pos ⟨rfl,rfl⟩, Function.update_self]
    exact hheld
  · have hne : ns' ++ key' ≠ ns ++ key := by
      intro heq
      exact hsame (List.append_inj heq (htwo'.trans htwo.symm))
    rw [if_neg hsame, Function.update_of_ne hne]
    exact h ns' key' htwo'

variable (backupServer : Bytes) (printDouble : Double → Bytes) (conf : UpstreamConf)
variable {server : Server} {lua : Lua} {shas : QkPack.Script → Bytes} {cache : ScriptCache}

theorem serviceRun_represents (hs : Scripted proto server lua shas) {es : List ServiceEvent} {fs : List TenantEvent}
    (hcarries : List.Forall₂ (Carries t) es fs) (hrange : InRangeAlong a fs) (hstore : Represents proto t store a)
    (hcache : CacheOf shas cache) :
    ∃ bodies s, serviceRun proto backupServer printDouble conf server ⟨store,cache⟩ es = some (bodies,s) ∧
      Represents proto t s.store (fs.foldl TenantStore.after a) ∧
        List.Forall₂ (fun shown body => ∃ cost, Shows cost shown.1 shown.2 body) (tenantAnswers a fs) bodies := by
  induction hcarries generalizing store a cache with
  | nil => exact ⟨[],⟨store,cache⟩,rfl,hstore,.nil⟩
  | cons hfirst _ ih =>
    obtain ⟨hnow,hlater⟩ := hrange
    cases hfirst with
    | @call cost world request ns key c hparent hr hc =>
      have hhandles := handles_command backupServer printDouble hs hcache hr (hstore ns key hr.two) hc hnow
      obtain ⟨body,item,cache',hserve,hshows,hheld,hcache'⟩ := hhandles.serve cost conf hr hparent
      obtain ⟨bodies,s,hrun,hfinal,hall⟩ := ih hlater (hstore.update hr.two hheld) hcache'
      refine ⟨body :: bodies,s,?_,hfinal,.cons ⟨cost,hshows⟩ hall⟩
      simp only [serviceRun, hserve, Option.bind_eq_bind, Option.bind_some, hrun, Option.pure_def]
    | @vanish ns key htwo =>
      obtain ⟨bodies,s,hrun,hfinal,hall⟩ := ih hlater (hstore.update htwo .nothing) hcache
      exact ⟨bodies,s,hrun,hfinal,hall⟩

/-- Whatever the tenants ask, one after the other and mixed in any way, every request is answered, and every answer is
the one that the store of its tenant gives. -/
theorem tenants_served_apart (hs : Scripted proto server lua shas) {es : List ServiceEvent} {fs : List TenantEvent}
    (hcarries : List.Forall₂ (Carries t) es fs) (hrange : InRangeAlong (fun _ _ => none) fs) :
    ∃ bodies s, serviceRun proto backupServer printDouble conf server ⟨fun _ => none,fun _ _ => []⟩ es =
        some (bodies,s) ∧
      List.Forall₂ (fun shown body => ∃ cost, Shows cost shown.1 shown.2 body)
        (tenantAnswers (fun _ _ => none) fs) bodies := by
  have hempty : Represents proto t (fun _ => none) fun _ _ => none := fun _ _ _ => .nothing
  obtain ⟨bodies,s,hrun,-,hall⟩ := serviceRun_represents backupServer printDouble conf hs hcarries hrange hempty
    fun _ _ => .inl rfl
  exact ⟨bodies,s,hrun,hall⟩

end Refinement

section TwoTenants

def shaOf : QkPack.Script → Bytes
  | .addMultikv => text "a0"
  | .addZset => text "a1"
  | .incrby => text "a2"
  | .addRset => text "a3"

/-- An interpreter that reports nothing of an error but that there is one. -/
def shortLua : Lua where
  failed := fun _ => badCommand
  failed_length := fun _ => by decide
  failed_utf8 := fun _ => isUtf8_of_ascii (by decide)
  failed_cases := fun _ => .inl (by decide)
  number := id
  number_exact := fun _ _ => rfl

def scriptedServer : Server :=
  .plain (fun sha => if sha = shaOf .incrby then some (incrByScript shortLua)
    else if sha = shaOf .addRset then some (addRSetScript shortLua) else none) List.reverse List.reverse_perm

def scriptedProto : RedisProto := { literalProto with initClusterScript := fun _ script => some (shaOf script) }

theorem scripted : Scripted scriptedProto scriptedServer shortLua shaOf where
  loads := fun _ _ => rfl
  named := fun script => by cases script <;> decide
  incrby := rfl
  addRset := rfl

def wordX : Value := ⟨text "x",by decide,by decide,by decide⟩
def wordSeven : Value := ⟨text "7",by decide,by decide,by decide⟩

/-- A request for the key `k` of a tenant, with three tries. -/
def tenantRequest (ns : Bytes) (commandType : CommandType) (value : Bytes) (mbs : List Bytes) : Request :=
  { Request.fresh with
    commandType := commandType
    namespaces := ns
    key := text "k"
    value := value
    tries := 3
    vectorMbs := mbs }

def ofTenant (ns : Bytes) (commandType : CommandType) (value : Bytes) (mbs : List Bytes) : ServiceEvent :=
  .call 3 emptyWorld (tenantRequest ns commandType value mbs)

def twoTenants : List ServiceEvent :=
  [ofTenant (text "aa") .sadd [] [wordX.bytes],ofTenant (text "bb") .set wordSeven.bytes [],
    ofTenant (text "bb") .incrby (text "5") [],ofTenant (text "aa") .get [] [],.vanish (text "aa" ++ text "k"),
    ofTenant (text "aa") .scard [] [],ofTenant (text "bb") .get [] []]

def twoTenantsMeant : List TenantEvent :=
  [.command (text "aa") (text "k") (.sadd [wordX]),.command (text "bb") (text "k") (.set wordSeven),
    .command (text "bb") (text "k") (.incrBy 5),.command (text "aa") (text "k") .get,
    .expires (text "aa") (text "k"),.command (text "aa") (text "k") .scard,.command (text "bb") (text "k") .get]

theorem tenantRequest_addressed {ns : Bytes} (htwo : ns.length = 2) (commandType : CommandType) (value : Bytes)
    (mbs : List Bytes) : Addressed (tenantRequest ns commandType value mbs) ns (text "k") where
  unanswered := ⟨rfl,rfl,rfl⟩
  namespaces := rfl
  two := htwo
  named := rfl
  short := by
    rw [List.length_append, htwo]
    decide
  exptime := by
    rw [tenantRequest, Request.fresh]
    norm_num

theorem tenants_served_apart_two :
    tenantAnswers (fun _ _ => none) twoTenantsMeant =
      [(text "k",.count 1),(text "k",.stored),(text "k",.count 12),(text "k",.refused),(text "k",.count 0),
        (text "k",.value (some (text "12")))] ∧
    ∃ bodies s, serviceRun scriptedProto (text "127.0.0.1:8010") (fun _ => []) (tableConf 3 2) scriptedServer
        ⟨fun _ => none,fun _ _ => []⟩ twoTenants = some (bodies,s) ∧
      List.Forall₂ (fun shown body => ∃ cost, Shows cost shown.1 shown.2 body)
        (tenantAnswers (fun _ _ => none) twoTenantsMeant) bodies := by
  refine ⟨by decide,tenants_served_apart _ _ _ (t := fun _ => 0) scripted ?_ ?_⟩
  · have hone : Members 0 (tenantRequest (text "aa") .sadd [] [wordX.bytes]) [wordX] := ⟨rfl,by decide,by decide,rfl⟩
    exact .cons (.call rfl (tenantRequest_addressed rfl ..) ⟨rfl,hone⟩)
      (.cons (.call rfl (tenantRequest_addressed rfl ..) ⟨rfl,rfl,by decide⟩)
      (.cons (.call rfl (tenantRequest_addressed rfl ..) ⟨.inr rfl,by decide⟩)
      (.cons (.call rfl (tenantRequest_addressed rfl ..) rfl)
      (.cons (.vanish rfl) (.cons (.call rfl (tenantRequest_addressed rfl ..) rfl)
      (.cons (.call rfl (tenantRequest_addressed rfl ..) rfl) .nil))))))
  · refine ⟨trivial,trivial,⟨by norm_num,?_⟩,trivial,trivial,?_,trivial,trivial⟩
    · intro m hm
      cases Option.some.inj hm
      decide
    · intro s hs
      cases Option.some.inj hs
      decide

end TwoTenants

end QkPack
