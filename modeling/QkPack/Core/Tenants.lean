import Mathlib.Order.CompletePartialOrder
import QkPack.Core.CreateRequest
import QkPack.FanOut.OwnKeys
import QkPack.FanOut.Purpose

/-!
# Requests keep to their namespace

Every buffer that is written for a request of a client, or for one of its sub-requests, holds a `PING`, or a command
all keys of which begin with the namespace that access control has accepted.
-/

namespace QkPack
open Wire CString Resp Json

/-- The command in a buffer, without an `ASKING` before it. -/
def commandIn (buffer : Bytes) : Option (List Bytes) :=
  match parseCommand (if askingFrame.isPrefixOf buffer then buffer.drop askingFrame.length else buffer) with
  | some (argv,[]) => some argv
  | _ => none

/-- A command, which is the `PING` of a failed request or has only keys of the namespace. -/
def Own (ns : Bytes) (command : CommandType) (argv : List Bytes) : Prop :=
  argv = [text "ping"] ∨ ∀ k ∈ keysOf command argv, ns <+: k

def OwnFrame (ns : Bytes) (command : CommandType) (frame : Bytes) : Prop :=
  ¬ askingFrame <+: frame ∧ ∃ argv, parseCommand frame = some (argv,[]) ∧ Own ns command argv

section Frames

variable {ns orig buffer : Bytes} {command : CommandType}

theorem commandIn_plain (hnot : ¬ askingFrame <+: buffer) {argv : List Bytes}
    (hparse : parseCommand buffer = some (argv,[])) : commandIn buffer = some argv := by
  have hprefix : ¬ askingFrame.isPrefixOf buffer = true := fun h => hnot (List.isPrefixOf_iff_prefix.mp h)
  rw [commandIn, if_neg hprefix, hparse]

theorem commandIn_asking {argv : List Bytes} (hparse : parseCommand orig = some (argv,[])) :
    commandIn (askingFrame ++ orig) = some argv := by
  have hprefix : askingFrame.isPrefixOf (askingFrame ++ orig) = true :=
    List.isPrefixOf_iff_prefix.mpr (List.prefix_append _ _)
  rw [commandIn, if_pos hprefix, List.drop_left, hparse]

theorem OwnFrame.own (horig : OwnFrame ns command orig) (hbuffer : buffer = orig ∨ buffer = askingFrame ++ orig) :
    ∃ argv, commandIn buffer = some argv ∧ Own ns command argv := by
  obtain ⟨hnot,argv,hparse,hown⟩ := horig
  rcases hbuffer with rfl | rfl
  · exact ⟨argv,commandIn_plain hnot hparse,hown⟩
  · exact ⟨argv,commandIn_asking hparse,hown⟩

theorem parseCommand_ping : parseCommand pingFrame = some ([text "ping"],[]) := by
  have hframe : pingFrame = encCommand [text "ping"] := by decide
  rw [hframe]
  exact parseCommand_whole _

theorem ownFrame_ping (ns : Bytes) (command : CommandType) : OwnFrame ns command pingFrame :=
  ⟨pingFrame_not_asking,[text "ping"],parseCommand_ping,.inl rfl⟩

theorem ownFrame_encoded {proto : RedisProto} {scripts : ScriptCache} {parent : Option Request}
    {request built : Request} (hcode : request.code = .ok) (hbatch : request.commandType ≠ .zbatchadd)
    (hencode : (redisProtoEncode proto scripts parent request).1 = .ok built)
    (hown : ∀ args, commandArgs proto (redisProtoEncode proto scripts parent request).2 parent request = some args →
      ∀ k ∈ keysOf request.commandType (sentArgs args), ns <+: k) :
    OwnFrame ns request.commandType built.protoStr := by
  obtain ⟨-,hframe⟩ := redisProtoEncode_frame hbatch hencode
  rw [if_pos hcode] at hframe
  obtain ⟨args,hargs,hparse⟩ := (sends_encode proto scripts parent request fun _ => hbatch).parsed_cut hencode
  exact ⟨hframe.not_asking,sentArgs args,hparse,.inr (hown args hargs)⟩

theorem ownFrame_single {proto : RedisProto} {scripts : ScriptCache} {request built : Request}
    (hcode : request.code = .ok) (hbatch : request.commandType ≠ .zbatchadd)
    (hsingle : checkSubRequest request = false) (hns : request.namespaces.length = 2) (hkey : ShortKey request.key)
    (hencode : (redisProtoEncode proto scripts none request).1 = .ok built) :
    OwnFrame request.namespaces built.commandType built.protoStr ∧ built.code = .ok ∧
      checkSubRequest built = false := by
  obtain ⟨⟨hcode',hsub,hcommand,-⟩,-⟩ := redisProtoEncode_frame hbatch hencode
  refine ⟨?_,hcode'.trans hcode,?_⟩
  · rw [hcommand]
    exact ownFrame_encoded hcode hbatch hencode fun args hargs => own_single hcode hns hkey hargs
  · rw [checkSubRequest, hsub, hcommand]
    exact hsingle

end Frames

/-- All that is written for a request is what was built, with or without `ASKING`. -/
def WritesOnly (orig : Bytes) (u : Upstream) : Prop :=
  RunSound orig u ∧ ∀ w ∈ u.written, w.2 = orig ∨ w.2 = askingFrame ++ orig

def KeepsOwn (ns : Bytes) (u : Upstream) : Prop :=
  ∃ orig, WritesOnly orig u ∧ OwnFrame ns u.request.commandType orig

section Single

variable {h : Handler} {conf : UpstreamConf} {ns orig : Bytes} {u v : Upstream} {e : Event}

theorem writesOnly_step (hu : WritesOnly orig u) (hstep : step h conf u e = some v) : WritesOnly orig v := by
  have hnext := runSound_step hu.1 hstep
  refine ⟨hnext,?_⟩
  rcases step_writes hstep with ⟨-,hnone⟩ | ⟨-,-,hone⟩
  · rw [hnone]
    exact hu.2
  · rw [hone]
    exact List.forall_mem_append.mpr ⟨hu.2,List.forall_mem_singleton.mpr hnext.bufs⟩

theorem writesOnly_start {request : Request} (hsingle : checkSubRequest request = false)
    (hunmarked : request.code ≠ .timeout5xx) : WritesOnly request.protoStr (Upstream.start conf request) :=
  ⟨runSound_of_single hsingle hunmarked,List.forall_mem_nil _⟩

theorem keepsOwn_start {request : Request} (hsingle : checkSubRequest request = false)
    (hunmarked : request.code ≠ .timeout5xx) (hframe : OwnFrame ns request.commandType request.protoStr) :
    KeepsOwn ns (Upstream.start conf request) := ⟨request.protoStr,writesOnly_start hsingle hunmarked,hframe⟩

theorem keepsOwn_step (hu : KeepsOwn ns u) (hstep : step h conf u e = some v) : KeepsOwn ns v := by
  obtain ⟨orig,hwrites,horig⟩ := hu
  exact ⟨orig,writesOnly_step hwrites hstep,(step_purpose hstep).1 ▸ horig⟩

theorem KeepsOwn.own (hu : KeepsOwn ns u) {code : ResponseCode} {buffer : Bytes} (hw : (code,buffer) ∈ u.written) :
    ∃ argv, commandIn buffer = some argv ∧ Own ns u.request.commandType argv := by
  obtain ⟨orig,hwrites,horig⟩ := hu
  exact horig.own (hwrites.2 _ hw)

end Single

section FanOut

variable {h : Handler} {limits : Limits} {conf : UpstreamConf} {ns : Bytes}

def SubOwn (ns : Bytes) : Sub → Prop
  | .pending sub => sub.Sound
  | .failed => True
  | .running u => ShortKey u.request.key ∧ KeepsOwn ns u

structure FanOwn (ns : Bytes) (s : FanOut) : Prop where
  parent : s.final = none → Planned ns s.parent
  subs : ∀ sub ∈ s.subs, SubOwn ns sub
  finished : ∀ sub ∈ s.finished, SubOwn ns sub

theorem refuseSub_own {scripts : ScriptCache} {parent request : Request} (hsub : request.isSubrequest = true)
    (hcode : request.code ≠ .ok) (hunmarked : request.code ≠ .timeout5xx) (hkey : ShortKey request.key) :
    SubOwn ns (refuseSub h conf scripts parent request).1 := by
  have hsingle : checkSubRequest request = false := by simp [checkSubRequest, hsub]
  rw [refuseSub, createRequestError_single request hsingle hcode]
  exact ⟨hkey,keepsOwn_start hsingle hunmarked (ownFrame_ping ns _)⟩

theorem encodeSub_own {scripts : ScriptCache} {parent request : Request} {created : Sub × Request}
    (hns : ns.length = 2) (hparent : parent.namespaces = ns) (hkeys : KeysShort parent)
    (hsub : request.isSubrequest = true) (hcode : request.code = .ok) (hcommand : request.commandType.OfSub)
    (hkey : ShortKey request.key) (hcreated : encodeSub h conf scripts parent request = some created) :
    SubOwn ns created.1 := by
  subst hparent
  unfold encodeSub at hcreated
  split at hcreated
  · rename_i built hencode
    cases hcreated
    obtain ⟨⟨hcode',hsub',hcommand',hkey',-⟩,-⟩ := redisProtoEncode_frame hcommand.ne_zbatchadd hencode
    have hframe := ownFrame_encoded hcode hcommand.ne_zbatchadd hencode fun args hargs =>
      own_sub hcode hcommand hns hkey hkeys hargs
    have hsingle : checkSubRequest built = false := by simp [checkSubRequest, hsub', hsub]
    refine ⟨?_,keepsOwn_start hsingle ?_ ?_⟩
    · exact hkey'.symm ▸ hkey
    · simp [hcode', hcode]
    · rw [hcommand']
      exact hframe
  · cases hcreated
    refine refuseSub_own ?_ (by simp) (by simp) ?_
    · exact hsub
    · exact hkey
  · cases hcreated

/-- A sub-request stands for its URI, or for the command of its parent. -/
theorem parseSubRequestBody_cases {parent request r : Request} {parsed : Bool} {uri : CommandType} {rc : QkpackRc}
    (huri : uri.OfSub) (hparse : parseSubRequestBody parent parsed uri request = (rc,r)) :
    r.isSubrequest = request.isSubrequest ∧ r.key = request.key ∧
      (rc = .ok → r.code = request.code ∧ r.commandType.OfSub) := by
  unfold parseSubRequestBody at hparse
  split at hparse
  · rename_i hmget
    cases hparse
    refine ⟨rfl,rfl,fun _ => ⟨rfl,?_⟩⟩
    rw [hmget]
    decide
  · rename_i hmset
    cases hparse
    refine ⟨rfl,rfl,fun _ => ⟨rfl,?_⟩⟩
    rw [hmset]
    decide
  · split at hparse
    · cases hparse
      exact ⟨rfl,rfl,fun _ => ⟨rfl,huri⟩⟩
    · cases hparse
      exact ⟨rfl,rfl,nofun⟩

theorem createSub_own {shared : Shared} {parsed : Bool} {nodeIp : Bytes} {parent : Request} {sub : SubRequest}
    {created : Sub × Request} (hns : ns.length = 2) (hparent : parent.namespaces = ns) (hkeys : KeysShort parent)
    (hsub : sub.Sound) (hcreated : createSub h conf shared parsed nodeIp parent sub = some created) :
    SubOwn ns created.1 := by
  unfold createSub at hcreated
  split at hcreated
  · cases hcreated
    trivial
  · rename_i request hinit
    have hkey := hsub.key_short hinit
    obtain ⟨hsubrequest,hcode⟩ := qkupstreamInit_fresh hinit
    split at hcreated
    · rename_i r hparse
      obtain ⟨hsame,hkey',hok⟩ := parseSubRequestBody_cases hsub.uri hparse
      obtain ⟨hcode',hcommand⟩ := hok rfl
      have hr : r.isSubrequest = true := hsame.trans hsubrequest
      have hrkey : ShortKey r.key := hkey' ▸ hkey
      split at hcreated
      · split at hcreated
        · cases hcreated
          refine refuseSub_own ?_ (by simp) (by simp) ?_
          · exact hr
          · exact hrkey
        · refine encodeSub_own hns hparent hkeys ?_ ?_ ?_ ?_ hcreated
          · exact hr
          · exact hcode'.trans hcode
          · exact hcommand
          · exact hrkey
      · exact encodeSub_own hns hparent hkeys hr (hcode'.trans hcode) hcommand hrkey hcreated
    · rename_i r _ hparse
      obtain ⟨hsame,hkey',-⟩ := parseSubRequestBody_cases hsub.uri hparse
      cases hcreated
      refine refuseSub_own ?_ (by simp) (by simp) ?_
      · exact hsame.trans hsubrequest
      · exact hkey' ▸ hkey

theorem setSlotValue_slots {p p' : Request} {slotId : Int} {i : Nat} {value : Bytes} (hp : ShortEntries p.mapSlotsKv)
    (hset : p.setSlotValue slotId i value = .ok p') :
    ∃ slots, p' = { p with mapSlotsKv := slots } ∧ ShortEntries slots := by
  unfold Request.setSlotValue at hset
  split at hset
  · cases hset
  · split at hset
    · cases hset
      refine ⟨_,rfl,?_⟩
      intro entry hentry
      obtain ⟨slot,hslot,rfl⟩ := List.mem_map.mp hentry
      split
      · intro kv hkv
        -- a value more leaves the keys as they are
        have hkey : kv.key ∈ (slot.2.modify i fun kv => { kv with value := value }).map (·.key) :=
          List.mem_map_of_mem hkv
        rw [map_key_modify] at hkey
        obtain ⟨kv',hkv',heq⟩ := List.mem_map.mp hkey
        rw [← heq]
        exact hp slot hslot kv' hkv'
      · exact hp slot hslot
    · cases hset

theorem ParentWrites.keysShort {key : Bytes} {p p' : Request} (hkey : ShortKey key) (hns : p.namespaces.length = 2)
    (hp : KeysShort p) (hwrites : ParentWrites key p p') : KeysShort p' := by
  induction hwrites with
  | refl => exact hp
  | tail hbefore hwrite ih =>
    rename_i q r
    have hq : q.namespaces.length = 2 := by
      rw [(ParentWrites.samePlan hbefore).namespaces]
      exact hns
    cases hwrite with
    | slotValue hset =>
      obtain ⟨slots,rfl,hslots⟩ := setSlotValue_slots ih.slots hset
      exact { ih with slots := hslots }
    | member kv hvalue hkv =>
      have hshort : ShortKey kv.key := by
        rw [hkv, ShortKey, List.length_drop]
        omega
      exact { ih with names := mapPush_names hkey ih.names, entries := mapPush_entries hshort ih.entries }
    | code request => exact ih

theorem Planned.written {key : Bytes} {p : Parent} {request : Request} (hns : ns.length = 2) (hp : Planned ns p)
    (hkey : ShortKey key) (hwrites : ParentWrites key p.request request) :
    Planned ns { p with request := request } where
  namespaces := (ParentWrites.samePlan hwrites).namespaces.trans hp.namespaces
  keys := ParentWrites.keysShort hkey (hp.namespaces ▸ hns) hp.keys hwrites
  vectorSub := hp.vectorSub
  subrequest := hp.subrequest

theorem qksubrequestPost_own {s : FanOut} {p : Parent} (hs : FanOwn ns s) (hp : Planned ns p) :
    FanOwn ns (qksubrequestPost h limits s p) := by
  have hold : ∀ sub ∈ s.finished ++ s.subs, SubOwn ns sub := List.forall_mem_append.mpr ⟨hs.finished,hs.subs⟩
  unfold qksubrequestPost
  split
  · rename_i p' hagain
    have hp' := createSubRequestBody_planned hp (processParent_again hagain)
    refine ⟨fun _ => hp',?_,hold⟩
    intro sub hsub
    obtain ⟨sub',hsub',rfl⟩ := List.mem_map.mp hsub
    exact hp'.subrequest sub' hsub'
  · exact ⟨fun hfinal => absurd hfinal (Option.some_ne_none _),List.forall_mem_nil _,hold⟩

theorem subOwn_set {subs : List Sub} {i : Nat} {sub : Sub} (hsubs : ∀ sub ∈ subs, SubOwn ns sub)
    (hsub : SubOwn ns sub) : ∀ sub' ∈ subs.set i sub, SubOwn ns sub' := by
  intro sub' hmem
  rcases List.mem_or_eq_of_mem_set hmem with hold | rfl
  · exact hsubs sub' hold
  · exact hsub

theorem fanStep_own {s s' : FanOut} {e : FanEvent} (hns : ns.length = 2) (hs : FanOwn ns s)
    (hstep : fanStep h limits conf s e = some s') : FanOwn ns s' := by
  obtain ⟨hfinal,hmove⟩ := fanStep_move hstep
  have hparent := hs.parent hfinal
  cases hmove with
  | @create _ _ _ _ sub _ hsub hcreate =>
    have hsound : sub.Sound := hs.subs _ (List.mem_of_getElem? hsub)
    have hown := createSub_own hns hparent.namespaces hparent.keys hsound hcreate
    exact ⟨fun _ => hparent.written hns shortKey_nil (createSub_writes hcreate),subOwn_set hs.subs hown,hs.finished⟩
  | @sub _ e u v hsub hv _ =>
    obtain ⟨hkey,hu⟩ : ShortKey u.request.key ∧ KeepsOwn ns u := hs.subs _ (List.mem_of_getElem? hsub)
    have hown : SubOwn ns (.running v) := ⟨(step_purpose hv).2 ▸ hkey,keepsOwn_step hu hv⟩
    exact ⟨fun _ => hparent.written hns hkey (parentAfter_writes u _ e),subOwn_set hs.subs hown,hs.finished⟩
  | error _ => exact ⟨fun hends => absurd hends (Option.some_ne_none _),hs.subs,hs.finished⟩
  | post _ =>
    exact qksubrequestPost_own hs ⟨hparent.namespaces,hparent.keys,hparent.vectorSub,hparent.subrequest⟩

theorem fanOwn_run {request : Request} {es : List FanEvent} {s : FanOut} (hns : request.namespaces.length = 2)
    (hkeys : KeysShort request)
    (hrun : Machine.run (fanStep h limits conf) (FanOut.start request) es = some s) :
    FanOwn request.namespaces s := by
  refine Machine.always_run (fun hs hstep => fanStep_own hns hs hstep) ?_ hrun
  exact ⟨fun _ => ⟨rfl,hkeys,List.forall_mem_nil _,List.forall_mem_nil _⟩,List.forall_mem_nil _,List.forall_mem_nil _⟩

end FanOut

/-- A buffer that is written for a request of a client, or for one of its sub-requests, with the command it stands
for. -/
inductive Emits (h : Handler) (limits : Limits) (conf : UpstreamConf) : Creation → CommandType → Bytes → Prop
  | single {request : Request} {es : List Event} {u : Upstream} {code : ResponseCode} {buffer : Bytes}
      (hrun : Machine.run (step h conf) (Upstream.start conf request) es = some u)
      (hw : (code,buffer) ∈ u.written) : Emits h limits conf (.single request) u.request.commandType buffer
  | sub {request : Request} {es : List FanEvent} {s : FanOut} {u : Upstream} {code : ResponseCode} {buffer : Bytes}
      (hrun : Machine.run (fanStep h limits conf) (FanOut.start request) es = some s)
      (hsub : .running u ∈ s.subs ++ s.finished) (hw : (code,buffer) ∈ u.written) :
      Emits h limits conf (.fanOut request) u.request.commandType buffer

section Tenants

variable {h : Handler} {limits : Limits} {conf : UpstreamConf} {scripts : ScriptCache} {answer : Option AclRecord}
  {replies : Bytes → Option Bytes} {http : HttpRequest} {s s' : Routing} {creation : Creation}

theorem Approved.reading {table : AclTable} {client : Client}
    (hbody : ∀ tree ∈ http.body, tree.size ≤ clientMaxBodySize) (happroved : Approved answer http table client) :
    ∃ command, Reading command client.request ∧ client.request.namespaces.length = 2 := by
  obtain ⟨opened,i,table',hparse,hprocess⟩ := happroved
  obtain ⟨command,hopened⟩ := parseRequestBody_reading hbody hparse
  exact ⟨command,process_reading hopened hprocess⟩

theorem emits_own {command : CommandType} {buffer : Bytes}
    (hbody : ∀ tree ∈ http.body, tree.size ≤ clientMaxBodySize)
    (hcreate : createRequest h scripts answer replies http s = some (creation,s'))
    (hemits : Emits h limits conf creation command buffer) :
    ∃ argv, commandIn buffer = some argv ∧ (argv = [text "ping"] ∨ ∃ client, Approved answer http s.table client ∧
      client.request.namespaces.length = 2 ∧ ∀ k ∈ keysOf command argv, client.request.namespaces <+: k) := by
  cases hemits with
  | single hrun hw =>
    rename_i request es u code
    rcases createRequest_single hcreate with ⟨hsingle,hcode,hping⟩ | ⟨client,nodeIp,happroved,hsingle,hencode⟩
    · have hunmarked : request.code ≠ .timeout5xx := by
        intro hmarked
        rw [hmarked] at hcode
        revert hcode
        decide
      have hwrites := Machine.always_run writesOnly_step (writesOnly_start hsingle hunmarked) hrun
      rw [hping] at hwrites
      have hbuffer : buffer = pingFrame ∨ buffer = askingFrame ++ pingFrame := hwrites.2 _ hw
      refine ⟨[text "ping"],?_,.inl rfl⟩
      rcases hbuffer with rfl | rfl
      · exact commandIn_plain pingFrame_not_asking parseCommand_ping
      · exact commandIn_asking parseCommand_ping
    · obtain ⟨kind,⟨hsub,-,hcode,hkeys⟩,hns⟩ := happroved.reading hbody
      have hbatch : client.request.commandType ≠ .zbatchadd := by
        intro hbatch
        simp [checkSubRequest, hsub, hbatch] at hsingle
      -- the node is all that was added to the approved request
      generalize hr : ({ client.request with nodeIp := nodeIp } : Request) = r at hencode
      have hsame : r.namespaces = client.request.namespaces := by rw [← hr]
      obtain ⟨hown,hcode',hsingle'⟩ := ownFrame_single (by rw [← hr]; exact hcode) (by rw [← hr]; exact hbatch)
        (by rw [← hr]; exact hsingle) (by rw [hsame]; exact hns) (by rw [← hr]; exact hkeys.key) hencode
      rw [hsame] at hown
      have hunmarked : request.code ≠ .timeout5xx := by simp [hcode']
      obtain ⟨argv,hargv,hkeys⟩ := KeepsOwn.own
        (Machine.always_run keepsOwn_step (keepsOwn_start hsingle' hunmarked hown) hrun) hw
      exact ⟨argv,hargv,hkeys.imp_right fun hkeys => ⟨client,happroved,hns,hkeys⟩⟩
  | sub hrun hsub hw =>
    rename_i request es s₁ u code
    obtain ⟨client,nodeIp,happroved,hrequest⟩ := createRequest_fanOut hcreate
    obtain ⟨kind,hreading,hns⟩ := happroved.reading hbody
    have hsame : request.namespaces = client.request.namespaces := by rw [hrequest]
    have hkeys : KeysShort request := by
      rw [hrequest]
      exact hreading.2.2.2
    have hown := fanOwn_run (by rw [hsame]; exact hns) hkeys hrun
    rw [hsame] at hown
    obtain ⟨-,hu⟩ : ShortKey u.request.key ∧ KeepsOwn client.request.namespaces u :=
      List.forall_mem_append.mpr ⟨hown.subs,hown.finished⟩ _ hsub
    obtain ⟨argv,hargv,hkeys⟩ := hu.own hw
    exact ⟨argv,hargv,hkeys.imp_right fun hkeys => ⟨client,happroved,hns,hkeys⟩⟩

end Tenants

/-- A request of a client that has come through `CreateRequest`, with all that it found there. Its body is no longer
than the server allows. -/
structure ServedRequest (h : Handler) where
  scripts : ScriptCache
  answer : Option AclRecord
  replies : Bytes → Option Bytes
  http : HttpRequest
  before : Routing
  creation : Creation
  after : Routing
  bodyLimit : ∀ tree ∈ http.body, tree.size ≤ clientMaxBodySize
  created : createRequest h scripts answer replies http before = some (creation,after)

namespace ServedRequest

variable {h : Handler} (limits : Limits) (conf : UpstreamConf) (a : ServedRequest h)

def ApprovedAs (client : Client) : Prop := Approved a.answer a.http a.before.table client

/-- The keys that the request can read or write, in whatever way it and its sub-requests run. -/
def keys : Set Bytes := { key | ∃ command buffer argv, Emits h limits conf a.creation command buffer ∧
  commandIn buffer = some argv ∧ key ∈ keysOf command argv }

variable {limits conf a}

theorem keysOf_ping (command : CommandType) : keysOf command [text "ping"] = [] := by
  cases command <;> rfl

theorem prefix_of_mem_keys {client : Client} (happroved : a.ApprovedAs client) {key : Bytes}
    (hkey : key ∈ a.keys limits conf) :
    client.request.namespaces <+: key ∧ client.request.namespaces.length = 2 := by
  obtain ⟨command,buffer,argv,hemits,hargv,hmem⟩ := hkey
  obtain ⟨argv',hargv',hown⟩ := emits_own a.bodyLimit a.created hemits
  rw [hargv, Option.some.injEq] at hargv'
  subst hargv'
  rcases hown with rfl | ⟨client',happroved',hns,hkeys⟩
  · rw [keysOf_ping] at hmem
    cases hmem
  · rw [happroved.unique happroved']
    exact ⟨hkeys key hmem,hns⟩

end ServedRequest

/-- Every buffer that is written for a request or its sub-requests holds a `PING` or a command all keys of which begin
with the two bytes of the approved namespace. Requests of different namespaces have no key in common. -/
theorem tenant_isolation (h : Handler) (limits : Limits) (conf : UpstreamConf) (a b : ServedRequest h) :
    (∀ command buffer, Emits h limits conf a.creation command buffer → ∃ argv, commandIn buffer = some argv ∧
      (argv = [text "ping"] ∨ ∃ client, a.ApprovedAs client ∧ client.request.namespaces.length = 2 ∧
        ∀ key ∈ keysOf command argv, client.request.namespaces <+: key)) ∧
    ∀ c d, a.ApprovedAs c → b.ApprovedAs d → c.request.namespaces ≠ d.request.namespaces →
      Disjoint (a.keys limits conf) (b.keys limits conf) := by
  constructor
  · intro command buffer hemits
    exact emits_own a.bodyLimit a.created hemits
  · intro c d hc hd hne
    rw [Set.disjoint_left]
    intro key ha hb
    obtain ⟨hown,hlen⟩ := ServedRequest.prefix_of_mem_keys hc ha
    obtain ⟨hother,hlen'⟩ := ServedRequest.prefix_of_mem_keys hd hb
    apply hne
    rw [List.prefix_iff_eq_take.mp hown, List.prefix_iff_eq_take.mp hother, hlen, hlen']

/-- A request to get the key `k` of a namespace. -/
def getHttp (uri : String) : HttpRequest where
  uri := text "/hdp/kvstore/kv/get"
  body := some (.object [(text "uri",.string (text uri)),(text "ak",.string (text "x")),(text "k",.string (text "k"))])
  bodyLength := 48
  xRealIp := text "10.1.0.9"
  tries := 3
  timeout := 0

def approvedNamespace (uri : String) : Option Bytes :=
  match (getHttp uri).parseRequestBody with
  | some (.ok,opened) =>
    match process (some openRecord) opened .empty with
    | .ok (some _,client,_) => some client.request.namespaces
    | _ => none
  | _ => none

def firstCommand (creation : Creation) : Option (CommandType × List Bytes) :=
  match creation with
  | .single request =>
    (Machine.run (step plainHandler (tableConf 3 3)) (Upstream.start (tableConf 3 3) request)
      [.connect emptyWorld [] .ok]).bind fun u => u.written.head?.bind fun w =>
        (commandIn w.2).map fun argv => (u.request.commandType,argv)
  | _ => none

theorem approved_of_namespace {uri : String} {ns : Bytes} (h : approvedNamespace uri = some ns) :
    ∃ client, Approved (some openRecord) (getHttp uri) .empty client ∧ client.request.namespaces = ns := by
  unfold approvedNamespace at h
  split at h
  · rename_i opened hparse
    split at h
    · rename_i i client table hprocess
      exact ⟨client,⟨opened,i,table,hparse,hprocess⟩,Option.some.inj h⟩
    · cases h
  · cases h

theorem served_get (uri : String) (ns : Bytes) (happroved : approvedNamespace uri = some ns)
    (hsent : ((createRequest plainHandler (fun _ _ => []) (some openRecord) oneMaster (getHttp uri) .empty).bind
      fun r => firstCommand r.1) = some (.get,[text "GET",ns ++ text "k"]))
    (hsize : ∀ tree ∈ (getHttp uri).body, tree.size ≤ clientMaxBodySize) :
    ∃ (a : ServedRequest plainHandler) (client : Client), a.ApprovedAs client ∧ client.request.namespaces = ns ∧
      ns ++ text "k" ∈ a.keys ⟨1,1⟩ (tableConf 3 3) := by
  obtain ⟨client,hclient,hns⟩ := approved_of_namespace happroved
  obtain ⟨⟨creation,after⟩,hcreate,hfirst⟩ := Option.bind_eq_some_iff.mp hsent
  cases creation with
  | single request =>
    refine ⟨⟨_,_,_,getHttp uri,_,.single request,after,hsize,hcreate⟩,client,hclient,hns,?_⟩
    simp only [firstCommand] at hfirst
    obtain ⟨u,hrun,hfirst⟩ := Option.bind_eq_some_iff.mp hfirst
    obtain ⟨w,hw,hfirst⟩ := Option.bind_eq_some_iff.mp hfirst
    obtain ⟨argv,hargv,hfirst⟩ := Option.map_eq_some_iff.mp hfirst
    obtain ⟨hcommand,rfl⟩ := Prod.mk.inj hfirst
    refine ⟨u.request.commandType,w.2,_,.single hrun (List.mem_of_mem_head? hw),hargv,?_⟩
    rw [hcommand]
    exact List.mem_cons_self
  | fanOut request => cases hfirst
  | answered request => cases hfirst
  | failed => cases hfirst

theorem tenant_isolation_two :
    ∃ a b : ServedRequest plainHandler, text "abk" ∈ a.keys ⟨1,1⟩ (tableConf 3 3) ∧
      text "cdk" ∈ b.keys ⟨1,1⟩ (tableConf 3 3) ∧
      Disjoint (a.keys ⟨1,1⟩ (tableConf 3 3)) (b.keys ⟨1,1⟩ (tableConf 3 3)) := by
  obtain ⟨a,c,hc,hab,hkey⟩ := served_get "qkd://BJ/ab" (text "ab") (by decide +kernel) (by decide +kernel)
    (by decide +kernel)
  obtain ⟨b,d,hd,hcd,hother⟩ := served_get "qkd://BJ/cd" (text "cd") (by decide +kernel)
    (by decide +kernel) (by decide +kernel)
  refine ⟨a,b,hkey,hother,(tenant_isolation plainHandler ⟨1,1⟩ (tableConf 3 3) a b).2 c d hc hd ?_⟩
  rw [hab, hcd]
  decide

end QkPack
